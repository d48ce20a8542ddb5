/-
Pieces of Rust's text handling: splitting at a separator (`splitn`), `trim`, and unsigned integers in
decimal. The pieces between separators are read back from the text they make up, and so is every number
that fits its type.
-/
import Mathlib.Data.List.DropRight
import Mathlib.Tactic

namespace BedrockRs.Lib.Text

/-! ## Splitting -/

section Split

variable {α : Type} [DecidableEq α] {sep : α} {piece rest s : List α} {n : Nat}

/-- At most `n` pieces; the last of them keeps the separators that are left. -/
def splitList (sep : α) : Nat → List α → List (List α)
  | 0, _ => []
  | 1, s => [s]
  | n + 2, s =>
    match s.dropWhile (· ≠ sep) with
    | [] => [s]
    | _ :: rest => s.takeWhile (· ≠ sep) :: splitList sep (n + 1) rest

theorem splitList_append (h : sep ∉ piece) :
    splitList sep (n + 2) (piece ++ sep :: rest) = piece :: splitList sep (n + 1) rest := by
  have hne : ∀ c ∈ piece, decide (c ≠ sep) = true := fun c hc => decide_eq_true (ne_of_mem_of_not_mem hc h)
  rw [splitList, List.dropWhile_append_of_pos hne, List.takeWhile_append_of_pos hne,
    List.dropWhile_cons_of_neg (by simp), List.takeWhile_cons_of_neg (by simp), List.append_nil]

theorem splitList_eq_cons_cons {first second : List α} {pieces : List (List α)} :
    splitList sep (n + 2) s = first :: second :: pieces ↔
      sep ∉ first ∧ ∃ rest, s = first ++ sep :: rest ∧ splitList sep (n + 1) rest = second :: pieces := by
  constructor
  · intro h
    rw [splitList] at h
    split at h
    · cases h
    · rename_i c rest hdrop
      rw [List.cons.injEq] at h
      obtain ⟨rfl, hpieces⟩ := h
      have hc := List.head?_dropWhile_not (fun c => decide (c ≠ sep)) s
      rw [hdrop, List.head?_cons] at hc
      have hsep : c = sep := by simpa using hc
      rw [hsep] at hdrop
      refine ⟨fun hmem => ?_, rest, ?_, hpieces⟩
      · simpa using List.mem_takeWhile_imp hmem
      · rw [← hdrop, List.takeWhile_append_dropWhile]
  · rintro ⟨hfirst, rest, rfl, hpieces⟩
    rw [splitList_append hfirst, hpieces]

theorem length_splitList_le (sep : α) : ∀ (n : Nat) (s : List α), (splitList sep n s).length ≤ n
  | 0, _ => le_rfl
  | 1, _ => le_rfl
  | n + 2, s => by
    rw [splitList]
    split
    · exact Nat.succ_le_succ (Nat.zero_le _)
    · exact Nat.succ_le_succ (length_splitList_le sep (n + 1) _)

end Split

def splitn (n : Nat) (sep : Char) (s : String) : List String := (splitList sep n s.toList).map String.ofList

theorem length_splitn_le (n : Nat) (sep : Char) (s : String) : (splitn n sep s).length ≤ n := by
  rw [splitn, List.length_map]
  exact length_splitList_le sep n _

theorem splitn_one (sep : Char) (s : String) : splitn 1 sep s = [s] := by
  rw [splitn, splitList, List.map_singleton, String.ofList_toList]

theorem splitn_append {sep : Char} {piece : String} (h : sep ∉ piece.toList) (n : Nat) (rest : String) :
    splitn (n + 2) sep (piece ++ String.singleton sep ++ rest) = piece :: splitn (n + 1) sep rest := by
  rw [splitn, String.toList_append, String.toList_append, String.toList_singleton, List.append_assoc,
    List.singleton_append, splitList_append h, List.map_cons, String.ofList_toList]
  rfl

/-- Three pieces, of which the last one may hold further separators. -/
theorem splitn_three_iff {sep : Char} {s a b c : String} : splitn 3 sep s = [a, b, c] ↔
    sep ∉ a.toList ∧ sep ∉ b.toList ∧ s = a ++ String.singleton sep ++ b ++ String.singleton sep ++ c := by
  have hassoc : a ++ String.singleton sep ++ b ++ String.singleton sep ++ c =
      a ++ String.singleton sep ++ (b ++ String.singleton sep ++ c) := by
    simp only [String.append_assoc]
  rw [hassoc]
  constructor
  · intro h
    have hlist : splitList sep 3 s.toList = [a.toList, b.toList, c.toList] := by
      have hmap := congrArg (List.map String.toList) h
      simpa [splitn, Function.comp_def] using hmap
    obtain ⟨ha, rest, hs, hrest⟩ := splitList_eq_cons_cons.1 hlist
    obtain ⟨hb, last, rfl, hlast⟩ := splitList_eq_cons_cons.1 hrest
    rw [splitList, List.cons.injEq] at hlast
    refine ⟨ha, hb, String.toList_inj.1 ?_⟩
    simp [hs, hlast.1]
  · rintro ⟨ha, hb, rfl⟩
    rw [splitn_append ha, splitn_append hb, splitn_one]

/-! ## Blank text -/

/-- `char::is_whitespace`, the Unicode property `White_Space`. -/
def isWhitespace (c : Char) : Bool :=
  (0x9 ≤ c.toNat && c.toNat ≤ 0xD) || c.toNat = 0x20 || c.toNat = 0x85 || c.toNat = 0xA0 || c.toNat = 0x1680 ||
    (0x2000 ≤ c.toNat && c.toNat ≤ 0x200A) || c.toNat = 0x2028 || c.toNat = 0x2029 || c.toNat = 0x202F ||
    c.toNat = 0x205F || c.toNat = 0x3000

def trim (s : String) : String := .ofList ((s.toList.dropWhile isWhitespace).rdropWhile isWhitespace)

/-- `trim` leaves nothing of white space, and something of every other text. -/
theorem isEmpty_trim_iff (s : String) : (trim s).isEmpty = true ↔ ∀ c ∈ s.toList, isWhitespace c = true := by
  rw [trim, String.isEmpty_iff, ← String.toList_eq_nil_iff, String.toList_ofList, List.rdropWhile_eq_nil_iff]
  constructor
  · intro h c hc
    rw [← List.takeWhile_append_dropWhile (p := isWhitespace) (l := s.toList), List.mem_append] at hc
    rcases hc with hc | hc
    · exact List.mem_takeWhile_imp hc
    · exact h c hc
  · intro h c hc
    exact h c ((List.dropWhile_sublist _).mem hc)

/-! ## Decimal numbers -/

/-- `ParseIntError`. -/
inductive IntErrorKind where
  | empty
  | invalidDigit
  | posOverflow
deriving DecidableEq, Repr

instance : ToString IntErrorKind where
  toString
    | .empty => "cannot parse integer from empty string"
    | .invalidDigit => "invalid digit found in string"
    | .posOverflow => "number too large to fit in target type"

/-- The digits of a number below `bound`, behind those that make up `value`. -/
def parseDigits (bound : Nat) (value : Nat) : List Char → Except IntErrorKind Nat
  | [] => .ok value
  | c :: cs =>
    if c.isDigit then
      let value := value * 10 + (c.toNat - 48)
      if value < bound then parseDigits bound value cs else .error .posOverflow
    else .error .invalidDigit

/-- `parse` of an unsigned integer type with values below `bound`; a plus sign may stand in front. -/
def parseUnsigned (bound : Nat) (s : String) : Except IntErrorKind Nat :=
  match s.toList with
  | [] => .error .empty
  | ['+'] | ['-'] => .error .invalidDigit
  | '+' :: cs => parseDigits bound 0 cs
  | cs => parseDigits bound 0 cs

section Decimal

variable {bound n : Nat}

theorem parseDigits_concat {cs : List Char} {value m : Nat} (hcs : parseDigits bound value cs = .ok m) {d : Nat}
    (hd : d < 10) (hlt : m * 10 + d < bound) :
    parseDigits bound value (cs ++ [Nat.digitChar d]) = .ok (m * 10 + d) := by
  induction cs generalizing value with
  | nil =>
    cases hcs
    rw [List.nil_append, parseDigits, if_pos (by rw [Nat.isDigit_digitChar]; exact decide_eq_true hd),
      Nat.toNat_digitChar_sub_48_of_lt_ten hd]
    exact if_pos hlt
  | cons c cs ih =>
    rw [parseDigits] at hcs
    rw [List.cons_append, parseDigits]
    split at hcs
    · rename_i hdigit
      rw [if_pos hdigit]
      dsimp only at hcs ⊢
      split at hcs
      · rename_i hroom
        rw [if_pos hroom]
        exact ih hcs
      · cases hcs
    · cases hcs

theorem parseDigits_toDigits (h : n < bound) : parseDigits bound 0 (Nat.toDigits 10 n) = .ok n := by
  induction n using Nat.strong_induction_on with
  | _ n ih =>
    rw [Nat.toDigits_eq_if (by decide)]
    split
    · rename_i hlt
      have hnil : parseDigits bound 0 [] = .ok 0 := rfl
      have hone := parseDigits_concat hnil hlt (by omega)
      rwa [List.nil_append, Nat.zero_mul, Nat.zero_add] at hone
    · have hlast := parseDigits_concat (ih (n / 10) (by omega) (by omega)) (Nat.mod_lt n (by decide)) (by omega)
      rwa [Nat.div_add_mod'] at hlast

theorem isDigit_of_mem_repr {c : Char} (h : c ∈ n.repr.toList) : c.isDigit = true := by
  rw [Nat.toList_repr] at h
  exact Nat.isDigit_of_mem_toDigits (by decide) (by decide) h

theorem parseUnsigned_repr (h : n < bound) : parseUnsigned bound n.repr = .ok n := by
  have hdigit : ∀ c ∈ n.repr.toList, c.isDigit = true := fun c hc => isDigit_of_mem_repr hc
  have hparse := parseDigits_toDigits h
  rw [← Nat.toList_repr] at hparse
  unfold parseUnsigned
  split
  · rename_i hnil
    rw [Nat.toList_repr] at hnil
    exact absurd hnil Nat.toDigits_ne_nil
  · rename_i hplus
    rw [hplus] at hdigit
    exact absurd (hdigit '+' (by simp)) (by decide)
  · rename_i hminus
    rw [hminus] at hdigit
    exact absurd (hdigit '-' (by simp)) (by decide)
  · rename_i hplus
    rw [hplus] at hdigit
    exact absurd (hdigit '+' (by simp)) (by decide)
  · exact hparse

end Decimal

end BedrockRs.Lib.Text
