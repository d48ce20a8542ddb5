/-
Hash maps, as association lists with unique keys. Lookup, insertion and removal are those of `AList`;
added here are the in-place update, `retain` and the number of entries, with what each does to a
lookup, to a property of all entries and to the length.
-/
import Mathlib.Data.List.AList
import Mathlib.Tactic

namespace BedrockRs.Lib

/-- A map from `α` to `β`. -/
abbrev HashMap (α β : Type) := AList fun _ : α => β

namespace HashMap

variable {α β : Type}

/-- A key with its value, as a walk over the map meets it. -/
abbrev Item (α β : Type) := (_ : α) × β

/-- The number of entries. -/
def len (m : HashMap α β) : Nat := m.entries.length

/-- `map.retain(..)`: only the entries that `keep` holds of. -/
def retain (keep : β → Bool) (m : HashMap α β) : HashMap α β :=
  ⟨m.entries.filter fun item => keep item.2, m.nodupKeys.sublist List.filter_sublist⟩

theorem len_eq_length_keys (m : HashMap α β) : m.len = m.keys.length := by
  rw [len, AList.keys, List.keys, List.length_map]

section Lookup

variable [DecidableEq α]

theorem lookup_retain (keep : β → Bool) (m : HashMap α β) (a : α) :
    (m.retain keep).lookup a = (m.lookup a).filter keep := by
  ext b
  rw [← Option.mem_def, AList.mem_lookup_iff, retain, List.mem_filter, ← AList.mem_lookup_iff, Option.mem_def,
    Option.filter_eq_some_iff]

theorem dlookup_cons_of_ne {a k : α} (h : a ≠ k) (v : β) (l : List (Item α β)) :
    List.dlookup a (⟨k, v⟩ :: l) = List.dlookup a l := List.dlookup_cons_ne l ⟨k, v⟩ h

theorem dlookup_kreplace_self {a : α} (b : β) :
    ∀ {l : List (Item α β)}, a ∈ l.keys → List.dlookup a (List.kreplace a b l) = some b
  | [], h => by cases h
  | ⟨k, v⟩ :: rest, h => by
    unfold List.kreplace
    by_cases hk : a = k
    · subst hk
      rw [List.lookmap_cons_some _ _ (dif_pos rfl)]
      exact List.dlookup_cons_eq rest a b
    · rw [List.lookmap_cons_none _ _ (dif_neg hk), dlookup_cons_of_ne hk]
      rw [List.keys_cons] at h
      exact dlookup_kreplace_self b ((List.mem_cons.1 h).resolve_left hk)

theorem dlookup_kreplace_ne {a a' : α} (h : a ≠ a') (b : β) : ∀ l : List (Item α β),
    List.dlookup a (List.kreplace a' b l) = List.dlookup a l
  | [] => rfl
  | ⟨k, v⟩ :: rest => by
    have ih := dlookup_kreplace_ne h b rest
    unfold List.kreplace at ih ⊢
    by_cases hk : a' = k
    · subst hk
      rw [List.lookmap_cons_some _ _ (dif_pos rfl), dlookup_cons_of_ne h, dlookup_cons_of_ne h]
    · rw [List.lookmap_cons_none _ _ (dif_neg hk)]
      by_cases ha : a = k
      · subst ha
        rw [List.dlookup_cons_eq, List.dlookup_cons_eq]
      · rw [dlookup_cons_of_ne ha, dlookup_cons_of_ne ha, ih]

theorem lookup_replace_self {m : HashMap α β} {a : α} (h : a ∈ m) (b : β) : (m.replace a b).lookup a = some b :=
  dlookup_kreplace_self b h

theorem lookup_replace_ne {a a' : α} (h : a ≠ a') (m : HashMap α β) (b : β) : (m.replace a' b).lookup a = m.lookup a :=
  dlookup_kreplace_ne h b m.entries

/-- Writing back what is there changes nothing. -/
theorem replace_lookup {m : HashMap α β} {a : α} {b : β} (h : m.lookup a = some b) : m.replace a b = m :=
  AList.ext (List.kreplace_self m.nodupKeys (AList.mem_lookup_iff.1 h))

theorem mem_of_lookup {m : HashMap α β} {a : α} {b : β} (h : m.lookup a = some b) : a ∈ m :=
  AList.lookup_isSome.1 (by rw [h]; rfl)

/-! ## What holds of every entry -/

section Every

variable {Q : α → β → Prop} {m : HashMap α β} (h : ∀ a b, m.lookup a = some b → Q a b)
include h

theorem every_insert {a : α} {b : β} (hab : Q a b) : ∀ a' b', (m.insert a b).lookup a' = some b' → Q a' b' := by
  intro a' b' hlookup
  by_cases ha : a' = a
  · subst ha
    rw [AList.lookup_insert] at hlookup
    cases hlookup
    exact hab
  · rw [AList.lookup_insert_ne ha] at hlookup
    exact h a' b' hlookup

theorem every_erase (a : α) : ∀ a' b', (m.erase a).lookup a' = some b' → Q a' b' := by
  intro a' b' hlookup
  by_cases ha : a' = a
  · subst ha
    rw [AList.lookup_erase] at hlookup
    cases hlookup
  · rw [AList.lookup_erase_ne ha] at hlookup
    exact h a' b' hlookup

theorem every_retain (keep : β → Bool) : ∀ a' b', (m.retain keep).lookup a' = some b' → Q a' b' := by
  intro a' b' hlookup
  rw [lookup_retain, Option.filter_eq_some_iff] at hlookup
  exact h a' b' hlookup.1

end Every

/-! ## The number of entries -/

theorem len_replace (m : HashMap α β) (a : α) (b : β) : len (m.replace a b) = m.len := by
  rw [len_eq_length_keys, AList.keys_replace, ← len_eq_length_keys]

theorem len_insert_of_notMem {m : HashMap α β} {a : α} (h : a ∉ m) (b : β) : len (m.insert a b) = m.len + 1 := by
  rw [len, AList.entries_insert_of_notMem h, List.length_cons, len]

theorem len_insert_of_mem {m : HashMap α β} {a : α} (h : a ∈ m) (b : β) : len (m.insert a b) = m.len := by
  have hpos := List.length_pos_of_mem h
  rw [len_eq_length_keys, AList.keys_insert, List.length_cons, List.length_erase_of_mem h, len_eq_length_keys]
  omega

theorem len_erase_le (m : HashMap α β) (a : α) : len (m.erase a) ≤ m.len := by
  rw [len_eq_length_keys, AList.keys_erase, len_eq_length_keys]
  exact List.length_erase_le

/-! ## Removing several keys -/

theorem lookup_eraseAll (m : HashMap α β) (a : α) (keys : List α) :
    (keys.foldl (fun (m : HashMap α β) k => m.erase k) m).lookup a = if a ∈ keys then none else m.lookup a := by
  induction keys generalizing m with
  | nil => rfl
  | cons k keys ih =>
    rw [List.foldl_cons, ih]
    by_cases hk : a = k
    · subst hk
      simp
    · simp [hk, AList.lookup_erase_ne hk]

theorem len_eraseAll_le (m : HashMap α β) (keys : List α) :
    len (keys.foldl (fun (m : HashMap α β) k => m.erase k) m) ≤ m.len := by
  induction keys generalizing m with
  | nil => exact Nat.le_refl _
  | cons k keys ih => exact Nat.le_trans (ih _) (len_erase_le m k)

end Lookup

end HashMap

end BedrockRs.Lib
