import FlowNotation.Proofs.Lexing
import Mathlib.Algebra.Group.Nat.Defs

/-! Texts as escapes. Between double marks any code point may be written by its number, halves of
surrogate pairs too; reading takes the digits back to the code point. -/
namespace FlowNotation

/-- A code point is found again by its number, a half too. -/
theorem CodePoint.ofNat?_toNat (c : CodePoint) : CodePoint.ofNat? c.toNat = some c := by
  cases c with
  | char c =>
    have hvalid : c.toNat.isValidChar := c.valid
    have hc : Char.ofNat c.toNat = c := Char.ofNat_toNat c
    rw [Char.ofNat, dif_pos hvalid] at hc
    rw [toNat, ofNat?, dif_pos hvalid, hc]
  | half i =>
    have hi := i.isLt
    have hinvalid : ¬ (0xD800 + i.val).isValidChar := by
      intro h
      rcases h with h | ⟨h, _⟩
      · omega
      · omega
    have hindex : Fin.ofNat 2048 (0xD800 + i.val - 0xD800) = i := by
      rw [Nat.add_sub_cancel_left]
      exact Fin.ext (Nat.mod_eq_of_lt hi)
    rw [toNat, ofNat?, dif_neg hinvalid, if_pos (by omega), hindex]

theorem CodePoint.toNat_le (c : CodePoint) : c.toNat ≤ 0x10FFFF := by
  cases c with
  | char c =>
    have h : c.toNat.isValidChar := c.valid
    rw [toNat]
    rcases h with h | ⟨_, h⟩
    · omega
    · omega
  | half i =>
    have hi := i.isLt
    rw [toNat]
    omega

namespace Text

/-! ## Hexadecimal digits -/

def hexDigit (upper : Bool) (d : Nat) : Char :=
  if upper then d.digitChar.toUpper else d.digitChar

def hexDigits (upper : Bool) : Nat → Nat → List Char
  | 0, _ => []
  | width + 1, n => hexDigits upper width (n / 16) ++ [hexDigit upper (n % 16)]

variable (upper : Bool)

theorem hexDigit?_hexDigit (d : Nat) (h : d < 16) : hexDigit? (hexDigit upper d) = some d := by
  have hall : ∀ upper, ∀ d < 16, hexDigit? (hexDigit upper d) = some d := by decide
  exact hall upper d h

theorem length_hexDigits (width n : Nat) : (hexDigits upper width n).length = width := by
  induction width generalizing n with
  | zero => rfl
  | succ width ih => rw [hexDigits, List.length_append, ih, List.length_singleton]

theorem isSome_hexDigits (width n : Nat) :
    (hexDigits upper width n).all (fun c => (hexDigit? c).isSome) = true := by
  induction width generalizing n with
  | zero => rfl
  | succ width ih =>
    have hdigit := hexDigit?_hexDigit upper (n % 16) (Nat.mod_lt n (by decide))
    rw [hexDigits, List.all_append, ih]
    simp [hdigit]

/-- The digits that are written are read as the number. -/
theorem numeral_hexDigits (width n : Nat) (h : n < 16 ^ width) :
    numeral 16 ((hexDigits upper width n).filterMap hexDigit?) = n := by
  induction width generalizing n with
  | zero =>
    rw [Nat.pow_zero, Nat.lt_one_iff] at h
    exact h.symm
  | succ width ih =>
    have hn : n / 16 < 16 ^ width := by
      rw [Nat.pow_succ] at h
      omega
    have hdigit := hexDigit?_hexDigit upper (n % 16) (Nat.mod_lt n (by decide))
    -- all digits but the last spell `n / 16`
    have ih := ih _ hn
    rw [numeral] at ih
    rw [hexDigits, List.filterMap_append, numeral, List.foldl_append, ih]
    simp only [List.filterMap_cons, hdigit, List.filterMap_nil, List.foldl_cons, List.foldl_nil]
    omega

theorem isAscii_hexDigits (width n : Nat) (c : Char) (h : c ∈ hexDigits upper width n) :
    Yaml.isAscii c = true := by
  induction width generalizing n with
  | zero => exact absurd h List.not_mem_nil
  | succ width ih =>
    rw [hexDigits, List.mem_append, List.mem_singleton] at h
    rcases h with h | rfl
    · exact ih _ h
    · have hall : ∀ upper, ∀ d < 16, Yaml.isAscii (hexDigit upper d) = true := by decide
      exact hall upper _ (Nat.mod_lt n (by decide))

end Text

namespace Yaml
open Text

variable (upper : Bool)

/-! ## Escapes -/

def escape (c : CodePoint) : List Char :=
  '\\' :: 'U' :: hexDigits upper 8 c.toNat

theorem length_escape (c : CodePoint) : (escape upper c).length = 10 := by
  rw [escape, List.length_cons, List.length_cons, length_hexDigits]

theorem isAscii_escape (e : CodePoint) (c : Char) (h : c ∈ escape upper e) : isAscii c = true := by
  rw [escape, List.mem_cons, List.mem_cons] at h
  rcases h with rfl | rfl | h
  · decide
  · decide
  · exact isAscii_hexDigits upper _ _ c h

/-- Eight digits are read as the code point they were written for. -/
theorem readEscape_hexDigits (c : CodePoint) (rest : List Char) :
    readEscape 8 (hexDigits upper 8 c.toNat ++ rest) = .ok c := by
  have hle := c.toNat_le
  have hlt : c.toNat < 16 ^ 8 := by omega
  have hreach : ¬ c.toNat > 0x7FFFFFFF := by omega
  have htake : (hexDigits upper 8 c.toNat ++ rest).take 8 = hexDigits upper 8 c.toNat :=
    List.take_left' (length_hexDigits upper 8 c.toNat)
  rw [readEscape, htake, if_pos ⟨length_hexDigits upper 8 _, isSome_hexDigits upper 8 _⟩,
    numeral_hexDigits upper 8 _ hlt, codePoint, if_neg hreach, c.ofNat?_toNat]
  rfl

/-- One escape is read as its code point, up to its last digit. -/
theorem readBackslash_escape (e : CodePoint) (c : Cursor) (rest : List Char)
    (h : c.rest = 'U' :: (hexDigits upper 8 e.toNat ++ rest)) :
    readBackslash c = .ok ([e], c.skip 9) ∧ (c.skip 9).rest = rest := by
  have hshort : shortEscape? 'U' = none := by decide
  have hwidth : escapeWidth? 'U' = some 8 := by decide
  constructor
  · simp only [readBackslash, h, hshort, hwidth, readEscape_hexDigits, bind, Except.bind]
    rfl
  · rw [Cursor.rest_skip, h]
    exact List.drop_left' (length_hexDigits upper 8 _)

/-- Between double marks, escapes are read as the code points that they name. -/
theorem quotedFrom_escapes (s : Text) (rounds : List Char) (acc : Text) (c : Cursor)
    (rest : List Char) (hrounds : s.length < rounds.length)
    (hrest : c.rest = s.flatMap (escape upper) ++ '"' :: rest) :
    ∃ c', quotedFrom .double rounds acc c = .ok (acc.reverse ++ s, c') ∧ c'.rest = rest := by
  -- a round for each escape, and one for the mark at the end
  induction s generalizing rounds acc c with
  | nil =>
    obtain ⟨r, rounds, rfl⟩ := List.exists_cons_of_length_pos (Nat.zero_lt_of_lt hrounds)
    have hc : c.rest = '"' :: rest := hrest
    refine ⟨c.next, ?_, ?_⟩
    · simp [quotedFrom, hc, isWhite, Cursor.skip, isBreak, ofChars, pure, Except.pure]
    · rw [Cursor.rest_next, hc, List.tail_cons]
  | cons e s ih =>
    obtain ⟨r, rounds, rfl⟩ := List.exists_cons_of_length_pos (Nat.zero_lt_of_lt hrounds)
    have hc : c.rest =
        '\\' :: 'U' :: (hexDigits upper 8 e.toNat ++ (s.flatMap (escape upper) ++ '"' :: rest)) := by
      rw [hrest, List.flatMap_cons, escape]
      simp
    have hnext : c.next.rest =
        'U' :: (hexDigits upper 8 e.toNat ++ (s.flatMap (escape upper) ++ '"' :: rest)) := by
      rw [Cursor.rest_next, hc, List.tail_cons]
    obtain ⟨hback, hbehind⟩ := readBackslash_escape upper e c.next _ hnext
    obtain ⟨c', hread, hc'⟩ := ih rounds (e :: acc) (c.next.skip 9) (by simpa using hrounds) hbehind
    refine ⟨c', ?_, hc'⟩
    rw [List.reverse_cons, List.append_assoc] at hread
    rw [quotedFrom]
    simpa [hc, isWhite, Cursor.skip, isBreak, hback, bind, Except.bind, ofChars] using hread

def quoted (s : Text) : List Char :=
  -- a text between double marks, all of it escaped
  '"' :: s.flatMap (escape upper) ++ ['"']

/-- A quoted text is written in plain characters, whatever it says. -/
theorem isAscii_quoted (s : Text) (c : Char) (h : c ∈ quoted upper s) : isAscii c = true := by
  simp only [quoted, List.mem_append, List.mem_cons, List.mem_flatMap, List.not_mem_nil,
    or_false] at h
  rcases h with (rfl | ⟨e, _, h⟩) | rfl
  · decide
  · exact isAscii_escape upper e c h
  · decide

/-- A quoted text is read back, whatever stands behind it. -/
theorem readQuoted_quoted (s : Text) (c : Cursor) (rest : List Char)
    (h : c.rest = quoted upper s ++ rest) :
    ∃ c', readQuoted .double c = .ok (s, c') ∧ c'.rest = rest := by
  have hbehind : c.next.rest = s.flatMap (escape upper) ++ '"' :: rest := by
    rw [Cursor.rest_next, h, quoted]
    simp
  have hlength : s.length < c.rounds.length := by
    have hle : s.length ≤ (s.flatMap (escape upper)).length := by
      simp only [List.length_flatMap, length_escape, List.map_const', List.sum_replicate_nat]
      omega
    rw [Cursor.rounds, h, quoted]
    simp only [List.length_cons, List.length_append]
    omega
  exact quotedFrom_escapes upper s c.rounds [] c.next rest hlength hbehind

end Yaml
end FlowNotation
