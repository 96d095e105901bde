import FlowNotation.Proofs.Lexing
import FlowNotation.Proofs.Pools
import FlowNotation.Proofs.Registrations
import FlowNotation.Proofs.SourceFiles
import FlowNotation.Proofs.WellBuilt

/-! Loads of directories. A load registers all source files of a directory, in the order of their
paths, or none of them. It then tells of the first file in that order which gives no notation,
whichever worker was the first to fail. -/
namespace FlowNotation

namespace FileTree

def ReadsAs (t : FileTree) (paths : List Path) (read : List (String × Notation)) : Prop :=
  -- each of the files gives its text and its notation
  List.Forall₂ (fun p r => t.readNotation p = .ok r) paths read

def FirstFault (t : FileTree) (paths : List Path) (p : Path) (cause : ReadFault) : Prop :=
  -- the first of the files that gives no notation, and why
  ∃ before after, paths = before ++ p :: after ∧ (∀ q ∈ before, ∃ r, t.readNotation q = .ok r) ∧
    t.readNotation p = .error cause

section FirstFault

variable {t : FileTree} {paths : List Path} {p : Path} {cause : ReadFault}

theorem FirstFault.mem (h : t.FirstFault paths p cause) : p ∈ paths := by
  obtain ⟨before, after, rfl, _⟩ := h
  exact List.mem_append_right before List.mem_cons_self

theorem FirstFault.readNotation_eq (h : t.FirstFault paths p cause) :
    t.readNotation p = .error cause := by
  obtain ⟨_, _, _, _, hp⟩ := h
  exact hp

end FirstFault

/-- A file of the right type is decoded and its line ends are made uniform. -/
theorem readSource_eq (t : FileTree) (p : Path) (hp : p.hasSourceType = true) (bytes : List UInt8)
    (hread : t.read p = .ok bytes) :
    t.readSource p = (Text.decodeUtf8 bytes).mapError (fun e => .source (.undecodable p.name e)) >>=
      fun cs => pure (String.ofList (Text.unifyLineEnds cs)) := by
  rw [readSource, hp, hread]
  rfl

/-- Bytes that are no text are a fault in what the author of the file wrote. -/
theorem readNotation_of_undecodable (t : FileTree) (p : Path) (hp : p.hasSourceType = true)
    (bytes : List UInt8) (hread : t.read p = .ok bytes) (e : Text.Utf8Fault)
    (hbytes : Text.decodeUtf8 bytes = .error e) :
    t.readNotation p = .error (.source (.undecodable p.name e)) := by
  rw [readNotation, t.readSource_eq p hp bytes hread, hbytes]
  rfl

/-- A notation is read when its text is and can be parsed. -/
theorem readNotation_eq_ok_iff (t : FileTree) (p : Path) (text : String) (n : Notation) :
    t.readNotation p = .ok (text, n) ↔
      t.readSource p = .ok text ∧ (Notation.parse text).result = .ok n := by
  simp only [readNotation, bind_eq_ok_iff, mapError_eq_ok_iff]
  constructor
  · rintro ⟨text', htext, n', hn, ⟨⟩⟩
    exact ⟨htext, hn⟩
  · rintro ⟨htext, hn⟩
    exact ⟨text, htext, n, hn, rfl⟩

end FileTree

/-- A fault that is told to the author of a file goes with the path of the file. -/
theorem LoadFault.notes_file (p : Path) (fault : SourceFault) (h : fault.isReported = true) :
    (LoadFault.file p (.source fault)).notes = ["while parsing " ++ p.text] := by
  rw [notes, isReported, h]
  rfl

namespace Catalog

/-! ## Reading file by file -/

section Reading

variable (t : FileTree) (p : Path) (paths : List Path)

theorem readFile_eq_ok_iff (r : String × Notation) :
    readFile t p = .ok r ↔ t.readNotation p = .ok r := mapError_eq_ok_iff _ _ r

theorem readFile_eq_error_iff (fault : LoadFault) : readFile t p = .error fault ↔
    ∃ cause, t.readNotation p = .error cause ∧ fault = .file p cause := mapError_eq_error_iff _ _ fault

/-- All files are read when each is. -/
theorem readAll_eq_ok_iff (read : List (String × Notation)) :
    readAll t paths = .ok read ↔ t.ReadsAs paths read := by
  rw [readAll, mapM_eq_ok_iff]
  simp only [readFile_eq_ok_iff]
  rfl

/-- The first file that cannot be read decides the fault. -/
theorem readAll_eq_error_iff (fault : LoadFault) :
    readAll t paths = .error fault ↔ ∃ p cause, t.FirstFault paths p cause ∧ fault = .file p cause := by
  rw [readAll, mapM_eq_error_iff]
  simp only [readFile_eq_ok_iff, readFile_eq_error_iff]
  constructor
  · rintro ⟨before, p, after, hsplit, hbefore, cause, hp, hfault⟩
    exact ⟨p, cause, ⟨before, after, hsplit, hbefore, hp⟩, hfault⟩
  · rintro ⟨p, cause, ⟨before, after, hsplit, hbefore, hp⟩, hfault⟩
    exact ⟨before, p, after, hsplit, hbefore, cause, hp, hfault⟩

end Reading

/-! ## All or nothing -/

section Load

variable (c : Catalog) (t : FileTree) (root : Path) (recursive : Bool)

def registrations (read : List (String × Notation)) : List Registration :=
  read.map fun r => .loaded r.1 r.2

theorem load_of_not_isDirectory (hroot : t.isDirectory root = false) :
    c.load t root recursive = (.ok [], c) := by
  rw [load, hroot]
  rfl

/-- A directory is loaded when all its files are read; without workers nothing is. -/
theorem load_of_isDirectory (hroot : t.isDirectory root = true) :
    c.load t root recursive =
      if t.sources root recursive = [] then (.ok [], c)
      else if c.workers ≤ 0 then (.error .noWorkers, c)
      else match readAll t (t.sources root recursive) with
        | .error fault => (.error fault, c)
        | .ok read => (.ok (read.map Prod.snd), c.addAll (registrations read)) := by
  have haddAll : ∀ read : List (String × Notation),
      read.foldl (fun c r => c.add r.2 (some r.1)) c = c.addAll (registrations read) := by
    intro read
    rw [addAll, registrations, List.foldl_map]
    rfl
  simp only [← haddAll]
  rw [load, hroot]
  rfl

/-- Without workers the catalogue stays as it is. -/
theorem load_of_no_workers (hw : c.workers ≤ 0) : (c.load t root recursive).2 = c := by
  cases hroot : t.isDirectory root with
  | false => rw [c.load_of_not_isDirectory t root recursive hroot]
  | true =>
    rw [c.load_of_isDirectory t root recursive hroot, if_pos hw]
    cases t.sources root recursive with
    | nil => rfl
    | cons p paths => rfl

/-- With a worker a load reads all files, one after the other, and then registers all of them. -/
theorem load_of_sourceOrder (hw : 0 < c.workers) (paths : List Path)
    (hs : t.SourceOrder root recursive paths) :
    c.load t root recursive = match readAll t paths with
      | .error fault => (.error fault, c)
      | .ok read => (.ok (read.map Prod.snd), c.addAll (registrations read)) := by
  rw [t.sourceOrder_iff] at hs
  subst hs
  cases hroot : t.isDirectory root with
  | false =>
    rw [c.load_of_not_isDirectory t root recursive hroot]
    rfl
  | true =>
    rw [c.load_of_isDirectory t root recursive hroot, if_pos rfl, if_neg (not_le.mpr hw)]
    cases t.sources root recursive with
    | nil => rfl
    | cons p paths => rw [if_neg (List.cons_ne_nil p paths)]

/-- A load takes all notations of a directory, as if they were registered one by one, or for the first
file that gives none it fails and leaves the catalogue as it was. However the workers take turns,
they come to the same. -/
theorem load_all_or_nothing (hw : 0 < c.workers) :
    ∃ paths outcome, t.SourceOrder root recursive paths ∧
      Pool.Delivers c.workers.toNat (readFile t) (Pool.ofJobs paths) outcome ∧
      ((∃ read, outcome = .ok read ∧ t.ReadsAs paths read ∧
          c.load t root recursive = (.ok (read.map Prod.snd), c.addAll (registrations read)) ∧
          c.Extends (registrations read) (c.load t root recursive).2) ∨
        ∃ p cause, outcome = .error (.file p cause) ∧ t.FirstFault paths p cause ∧
          c.load t root recursive = (.error (.file p cause), c) ∧
          (∀ fault, cause = .source fault → fault.isReported = true →
            (LoadFault.file p cause).notes = ["while parsing " ++ p.text]) ∧
          ∀ bytes e, t.read p = .ok bytes → Text.decodeUtf8 bytes = .error e →
            cause = .source (.undecodable p.name e) ∧
            (LoadFault.file p cause).notes = ["while parsing " ++ p.text]) := by
  obtain ⟨paths, hs⟩ := t.exists_sourceOrder root recursive
  have hload := c.load_of_sourceOrder t root recursive hw paths hs
  have hworkers : 0 < c.workers.toNat := Int.pos_iff_toNat_pos.mp hw
  refine ⟨paths, readAll t paths, hs, Pool.delivers_ofJobs _ _ hworkers paths, ?_⟩
  cases hread : readAll t paths with
  | ok read =>
    rw [hread] at hload
    refine .inl ⟨read, rfl, (readAll_eq_ok_iff t paths read).mp hread, hload, ?_⟩
    rw [hload]
    exact c.extends_addAll (registrations read)
  | error fault =>
    rw [hread] at hload
    obtain ⟨p, cause, hfirst, rfl⟩ := (readAll_eq_error_iff t paths fault).mp hread
    refine .inr ⟨p, cause, rfl, hfirst, hload, ?_, ?_⟩
    · rintro fault rfl hfault
      exact LoadFault.notes_file p fault hfault
    · intro bytes e hbytes he
      have hsource : p.hasSourceType = true := ((hs.mem_iff p).mp hfirst.mem).2
      have hcause := t.readNotation_of_undecodable p hsource bytes hbytes e he
      obtain rfl := Except.error.inj (hfirst.readNotation_eq.symm.trans hcause)
      exact ⟨rfl, LoadFault.notes_file p _ rfl⟩

end Load

end Catalog

/-! ## Lines of ASCII -/

def bytesOf (lines : List String) : List UInt8 :=
  (lines.flatMap String.toList).map fun c => .ofNat c.toNat

def ArePlain (lines : List String) : Prop :=
  -- each character is one byte, and no carriage return is read as something else
  ∀ l ∈ lines, ∀ c ∈ l.toList, c.toNat < 0x80 ∧ c ≠ '\r'

instance (lines : List String) : Decidable (ArePlain lines) :=
  -- a test on characters, which the kernel evaluates one after the other
  decidable_of_iff (lines.all fun l => l.toList.all fun c => c.toNat < 0x80 && c != '\r')
    (by simp [ArePlain])

/-- Between two characters, bytes of ASCII are characters one by one. -/
theorem Text.decodeUtf8From_ascii {cs : List Char} (h : ∀ c ∈ cs, c.toNat < 0x80) (position : Nat)
    (lead : UInt8) (acc : List Char) :
    decodeUtf8From position [] 0 lead 0 acc (cs.map fun c => .ofNat c.toNat) =
      .ok (acc.reverse ++ cs) := by
  induction cs generalizing position lead acc with
  | nil => rw [List.map_nil, decodeUtf8From, if_pos rfl, List.append_nil]
  | cons c cs ih =>
    obtain ⟨hc, hcs⟩ := List.forall_mem_cons.mp h
    have hbyte : (UInt8.ofNat c.toNat).toNat = c.toNat := by
      rw [UInt8.toNat_ofNat']
      omega
    have hlone : continuations (.ofNat c.toNat) = some [] := by
      rw [continuations, if_pos]
      rw [UInt8.lt_iff_toNat_lt, hbyte]
      exact hc
    rw [List.map_cons, decodeUtf8From, hlone]
    dsimp only
    rw [hbyte, Char.ofNat_toNat, ih hcs, List.reverse_cons, List.append_assoc]
    rfl

theorem ArePlain.char {lines : List String} (h : ArePlain lines) {c : Char}
    (hc : c ∈ lines.flatMap String.toList) : c.toNat < 0x80 ∧ c ≠ '\r' := by
  obtain ⟨l, hl, hc⟩ := List.mem_flatMap.mp hc
  exact h l hl c hc

theorem ArePlain.decodeUtf8_bytesOf {lines : List String} (h : ArePlain lines) :
    Text.decodeUtf8 (bytesOf lines) = .ok (lines.flatMap String.toList) :=
  Text.decodeUtf8From_ascii (fun _ hc => (h.char hc).1) 0 0 []

theorem ArePlain.unifyLineEnds {lines : List String} (h : ArePlain lines) :
    Text.unifyLineEnds (lines.flatMap String.toList) = lines.flatMap String.toList :=
  Text.unifyLineEnds_of_not_mem _ fun hreturn => (h.char hreturn).2 rfl

/-- The source in a file of plain lines. -/
theorem FileTree.readSource_join (t : FileTree) (p : Path) (hp : p.hasSourceType = true)
    (lines : List String) (hread : t.read p = .ok (bytesOf lines)) (hplain : ArePlain lines) :
    t.readSource p = .ok (String.join lines) := by
  have hchars : (String.join lines).toList = lines.flatMap String.toList := String.toList_join
  rw [t.readSource_eq p hp _ hread, hplain.decodeUtf8_bytesOf]
  change Except.ok (String.ofList (Text.unifyLineEnds (lines.flatMap String.toList))) = _
  rw [hplain.unifyLineEnds, ← hchars, String.ofList_toList]

/-- The notation in such a file, if its source can be parsed. -/
theorem FileTree.readNotation_join (t : FileTree) (p : Path) (hp : p.hasSourceType = true)
    (lines : List String) (hread : t.read p = .ok (bytesOf lines)) (hplain : ArePlain lines)
    {n : Notation} (hn : (Notation.parse (String.join lines)).result = .ok n) :
    t.readNotation p = .ok (String.join lines, n) :=
  (t.readNotation_eq_ok_iff p _ n).mpr ⟨t.readSource_join p hp lines hread hplain, hn⟩

/-! ## A directory of forms

The intake lies among the forms. Of the two forms for trusts neither can be read. -/

def formTree : FileTree where
  entries.entries := [(["forms"], .directory), (["forms", "trusts"], .directory),
    (["forms", "trusts", "c.yaml"], .file []), (["forms", "trusts", "b.YML"], .file [0x2D, 0xFF]),
    (["forms", "notes.txt"], .file [0xFF]), (["forms", "intake.yml"], .file (bytesOf intakeLines))]
  entries.nodup := by decide +kernel

def formCatalog : Catalog :=
  -- an earlier intake is registered already
  (Catalog.mk .empty .empty 2).add ⟨⟨"intake", "Old intake", none, .org⟩, none, intakeFlow, none⟩ none

theorem readNotation_of_intakeLines (t : FileTree) (p : Path) (hp : p.hasSourceType = true)
    (hread : t.read p = .ok (bytesOf intakeLines)) :
    t.readNotation p = .ok (intakeSource, intake) :=
  t.readNotation_join p hp intakeLines hread (by decide +kernel) parse_intakeSource

theorem readNotation_intake :
    formTree.readNotation ["forms", "intake.yml"] = .ok (intakeSource, intake) :=
  readNotation_of_intakeLines formTree _ (by decide +kernel) (by decide +kernel)

def formPaths : List Path :=
  [["forms", "intake.yml"], ["forms", "trusts", "b.YML"], ["forms", "trusts", "c.yaml"]]

def trustFault : LoadFault :=
  .file ["forms", "trusts", "b.YML"] (.source (.undecodable "b.YML" ⟨.invalidStart, 1, 1, 0xFF⟩))

theorem sourceOrder_formPaths (paths : List Path)
    (hs : formTree.SourceOrder ["forms"] true paths) : paths = formPaths :=
  hs.eq_of_entries (by decide +kernel) ["forms"] (by decide +kernel) formPaths (by decide +kernel)
    (by decide +kernel)

theorem sourceOrder_intake (paths : List Path)
    (hs : formTree.SourceOrder ["forms"] false paths) : paths = [["forms", "intake.yml"]] :=
  hs.eq_of_entries (by decide +kernel) ["forms"] (by decide +kernel) _ (by decide +kernel)
    (by decide +kernel)

theorem readAll_formPaths : Catalog.readAll formTree formPaths = .error trustFault := by
  have htrust : formTree.readNotation ["forms", "trusts", "b.YML"] =
      .error (.source (.undecodable "b.YML" ⟨.invalidStart, 1, 1, 0xFF⟩)) :=
    formTree.readNotation_of_undecodable _ (by decide +kernel) [0x2D, 0xFF] (by decide +kernel) _
      (by decide +kernel)
  rw [Catalog.readAll_eq_error_iff]
  refine ⟨_, _, ⟨[["forms", "intake.yml"]], _, rfl, ?_, htrust⟩, rfl⟩
  exact List.forall_mem_singleton.mpr ⟨_, readNotation_intake⟩

/-- With the forms for trusts the load fails for the first of these, and without them it puts the
intake in the place of the earlier one. -/
theorem load_all_or_nothing_forms : 0 < formCatalog.workers ∧
    formCatalog.load formTree ["forms"] true = (.error trustFault, formCatalog) ∧
    trustFault.notes = ["while parsing forms/trusts/b.YML"] ∧
    (formCatalog.load formTree ["forms"] false).1 = .ok [intake] ∧
    (formCatalog.load formTree ["forms"] false).2.get? "intake" = some intake ∧
    (formCatalog.load formTree ["forms"] false).2.source? "intake" = some intakeSource := by
  have hw : 0 < formCatalog.workers := by decide
  have hfails : formCatalog.load formTree ["forms"] true = (.error trustFault, formCatalog) ∧
      trustFault.notes = ["while parsing forms/trusts/b.YML"] := by
    obtain ⟨paths, _, hs, _, hload⟩ :=
      Catalog.load_all_or_nothing formCatalog formTree ["forms"] true hw
    obtain rfl := sourceOrder_formPaths paths hs
    rcases hload with ⟨read, _, hread, _⟩ | ⟨p, cause, _, hfirst, hload, hnotes, _⟩
    · cases readAll_formPaths.symm.trans ((Catalog.readAll_eq_ok_iff _ _ _).mpr hread)
    · have hfault := (Catalog.readAll_eq_error_iff _ _ _).mpr ⟨p, cause, hfirst, rfl⟩
      cases readAll_formPaths.symm.trans hfault
      exact ⟨hload, hnotes _ rfl rfl⟩
  have hloads : formCatalog.load formTree ["forms"] false =
      (.ok [intake], formCatalog.addAll [.loaded intakeSource intake]) := by
    obtain ⟨paths, _, hs, _, hload⟩ :=
      Catalog.load_all_or_nothing formCatalog formTree ["forms"] false hw
    obtain rfl := sourceOrder_intake paths hs
    have hintake : Catalog.readAll formTree [["forms", "intake.yml"]] =
        .ok [(intakeSource, intake)] :=
      (Catalog.readAll_eq_ok_iff _ _ _).mpr (.cons readNotation_intake .nil)
    rcases hload with ⟨read, _, hread, hload, _⟩ | ⟨p, cause, _, hfirst, _⟩
    · cases hintake.symm.trans ((Catalog.readAll_eq_ok_iff _ _ _).mpr hread)
      exact hload
    · cases hintake.symm.trans ((Catalog.readAll_eq_error_iff _ _ _).mpr ⟨p, cause, hfirst, rfl⟩)
  rw [hloads]
  exact ⟨hw, hfails.1, hfails.2, rfl, rfl, rfl⟩

end FlowNotation
