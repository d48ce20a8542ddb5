/-
Readers and the encodings they invert. A reader is a state computation over the rest of a buffer
that may stop with an error; `Reads g bs a` says that it takes exactly `bs` off every buffer that
starts with `bs` and returns `a`. The rules follow the way readers are composed, so that a round trip
is proved along the reader's own text; `bind_ok` takes a successful run apart. `Takes g n` says that a
reader looks at the length only, and `FailsWith P g` bounds the errors a reader stops with, along the
same text. `Extends g` says that a reader does not look behind what it reads, so that it reads nothing of a
text that was cut off. `Word more bs` is a code word whose elements tell themselves where it ends.
-/
import Mathlib.Tactic

namespace BedrockRs.Lib.Codec

variable {β ε α γ : Type}

/-- `g` reads `a` off the front of every buffer that starts with `bs`, and nothing more. -/
def Reads (g : StateT (List β) (Except ε) α) (bs : List β) (a : α) : Prop := ∀ rest, g (bs ++ rest) = .ok (a, rest)

theorem Reads.pure (a : α) : Reads (Pure.pure a : StateT (List β) (Except ε) α) [] a := fun _ => rfl

theorem Reads.bind {g : StateT (List β) (Except ε) α} {f : α → StateT (List β) (Except ε) γ} {bs cs : List β} {a : α}
    {c : γ} (hg : Reads g bs a) (hf : Reads (f a) cs c) : Reads (g >>= f) (bs ++ cs) c := by
  intro rest
  show ((g (bs ++ cs ++ rest)).bind fun p => f p.1 p.2) = _
  rw [List.append_assoc, hg]
  exact hf rest

theorem Reads.map {g : StateT (List β) (Except ε) α} {bs : List β} {a : α} (hg : Reads g bs a) (f : α → γ) :
    Reads (f <$> g) bs (f a) := by
  intro rest
  show ((g (bs ++ rest)).map fun p => (f p.1, p.2)) = _
  rw [hg]
  rfl

/-- What is read off the front of a buffer is read off a buffer that holds nothing else. -/
theorem Reads.all {g : StateT (List β) (Except ε) α} {bs : List β} {a : α} (h : Reads g bs a) : g bs = .ok (a, []) := by
  have hnil := h []
  rwa [List.append_nil] at hnil

/-- A run of a composed reader that succeeds is a run of each of its parts. -/
theorem bind_ok {g : StateT (List β) (Except ε) α} {f : α → StateT (List β) (Except ε) γ} {src rest : List β} {c : γ} :
    (g >>= f) src = .ok (c, rest) ↔ ∃ a mid, g src = .ok (a, mid) ∧ f a mid = .ok (c, rest) := by
  show ((g src).bind fun p => f p.1 p.2) = _ ↔ _
  cases g src with
  | error e => simp [Except.bind]
  | ok p =>
    obtain ⟨a, mid⟩ := p
    simp only [Except.bind, Except.ok.injEq, Prod.mk.injEq]
    constructor
    · intro h
      exact ⟨a, mid, ⟨rfl, rfl⟩, h⟩
    · rintro ⟨_, _, ⟨rfl, rfl⟩, h⟩
      exact h

theorem pure_ok {src rest : List β} {a c : α} :
    (Pure.pure a : StateT (List β) (Except ε) α) src = .ok (c, rest) ↔ a = c ∧ src = rest := by
  show (Except.ok (a, src) : Except ε _) = _ ↔ _
  rw [Except.ok.injEq, Prod.mk.injEq]

theorem map_ok {g : StateT (List β) (Except ε) α} {f : α → γ} {src rest : List β} {c : γ} :
    (f <$> g) src = .ok (c, rest) ↔ ∃ a, g src = .ok (a, rest) ∧ f a = c := by
  show ((g src).map fun p => (f p.1, p.2)) = _ ↔ _
  cases g src with
  | error e => simp [Except.map]
  | ok p =>
    obtain ⟨a, mid⟩ := p
    simp only [Except.map, Except.ok.injEq, Prod.mk.injEq]
    constructor
    · rintro ⟨rfl, rfl⟩
      exact ⟨a, ⟨rfl, rfl⟩, rfl⟩
    · rintro ⟨_, ⟨rfl, rfl⟩, rfl⟩
      exact ⟨rfl, rfl⟩

/-! ## Lengths -/

/-- `g` takes the first `n` elements whatever they are, and fails only if there are fewer. -/
def Takes (g : StateT (List β) (Except ε) α) (n : Nat) : Prop :=
  ∀ src, (n ≤ src.length → ∃ a, g src = .ok (a, src.drop n)) ∧ (src.length < n → ∃ e, g src = .error e)

section Takes

variable {g : StateT (List β) (Except ε) α} {n k : Nat}

theorem Takes.pure (a : α) : Takes (Pure.pure a : StateT (List β) (Except ε) α) 0 :=
  fun _ => ⟨fun _ => ⟨a, rfl⟩, fun h => absurd h (Nat.not_lt_zero _)⟩

theorem Takes.bind {f : α → StateT (List β) (Except ε) γ} (hg : Takes g n) (hf : ∀ a, Takes (f a) k) :
    Takes (g >>= f) (n + k) := by
  intro src
  show (_ → ∃ c, ((g src).bind fun p => f p.1 p.2) = _) ∧ (_ → ∃ e, ((g src).bind fun p => f p.1 p.2) = _)
  rcases Nat.lt_or_ge src.length n with hn | hn
  · obtain ⟨e, he⟩ := (hg src).2 hn
    rw [he]
    exact ⟨fun h => absurd h (by omega), fun _ => ⟨e, rfl⟩⟩
  · obtain ⟨a, ha⟩ := (hg src).1 hn
    have hrest := hf a (src.drop n)
    rw [List.length_drop, List.drop_drop] at hrest
    rw [ha]
    exact ⟨fun h => hrest.1 (by omega), fun h => hrest.2 (by omega)⟩

theorem Takes.map (hg : Takes g n) (f : α → γ) : Takes (f <$> g) n := by
  intro src
  show (_ → ∃ c, ((g src).map fun p => (f p.1, p.2)) = _) ∧ (_ → ∃ e, ((g src).map fun p => (f p.1, p.2)) = _)
  constructor
  · intro h
    obtain ⟨a, ha⟩ := (hg src).1 h
    exact ⟨f a, by rw [ha]; rfl⟩
  · intro h
    obtain ⟨e, he⟩ := (hg src).2 h
    exact ⟨e, by rw [he]; rfl⟩

/-- A reader that takes `n` elements succeeds exactly when there are as many. -/
theorem Takes.ok_iff (hg : Takes g n) {src rest : List β} :
    (∃ a, g src = .ok (a, rest)) ↔ n ≤ src.length ∧ rest = src.drop n := by
  rcases Nat.lt_or_ge src.length n with hn | hn
  · obtain ⟨e, he⟩ := (hg src).2 hn
    rw [he]
    exact ⟨fun ⟨a, ha⟩ => (nomatch ha), fun h => absurd h.1 (by omega)⟩
  · obtain ⟨a, ha⟩ := (hg src).1 hn
    rw [ha]
    simp only [Except.ok.injEq, Prod.mk.injEq]
    exact ⟨fun ⟨_, _, h⟩ => ⟨hn, h.symm⟩, fun h => ⟨a, rfl, h.2.symm⟩⟩

end Takes

/-! ## Errors -/

/-- Every error that `g` stops with satisfies `P`. -/
def FailsWith (P : ε → Prop) (g : StateT (List β) (Except ε) α) : Prop := ∀ src e, g src = .error e → P e

section FailsWith

variable {P : ε → Prop} {g : StateT (List β) (Except ε) α}

theorem FailsWith.pure (a : α) : FailsWith P (Pure.pure a : StateT (List β) (Except ε) α) := fun _ _ h => nomatch h

theorem FailsWith.throw {e : ε} (h : P e) : FailsWith P (throw e : StateT (List β) (Except ε) α) := by
  intro src e' he
  cases he
  exact h

theorem FailsWith.bind {f : α → StateT (List β) (Except ε) γ} (hg : FailsWith P g) (hf : ∀ a, FailsWith P (f a)) :
    FailsWith P (g >>= f) := by
  intro src e h
  have h' : ((g src).bind fun p => f p.1 p.2) = .error e := h
  cases hgs : g src with
  | error e' =>
    rw [hgs] at h'
    cases h'
    exact hg src e hgs
  | ok p =>
    rw [hgs] at h'
    exact hf p.1 p.2 e h'

theorem FailsWith.map (hg : FailsWith P g) (f : α → γ) : FailsWith P (f <$> g) := by
  intro src e h
  have h' : ((g src).map fun p => (f p.1, p.2)) = .error e := h
  cases hgs : g src with
  | error e' =>
    rw [hgs] at h'
    cases h'
    exact hg src e hgs
  | ok p =>
    rw [hgs] at h'
    cases h'

theorem FailsWith.ite {c : Prop} [Decidable c] {g' : StateT (List β) (Except ε) α} (hg : FailsWith P g)
    (hg' : FailsWith P g') : FailsWith P (if c then g else g') := by
  split
  · exact hg
  · exact hg'

end FailsWith

/-! ## Cut texts -/

/-- `g` reads the same off a longer buffer. -/
def Extends (g : StateT (List β) (Except ε) α) : Prop :=
  ∀ src a rest, g src = .ok (a, rest) → ∀ more, g (src ++ more) = .ok (a, rest ++ more)

section Extends

variable {g : StateT (List β) (Except ε) α}

theorem Extends.pure (a : α) : Extends (Pure.pure a : StateT (List β) (Except ε) α) := by
  intro src c rest h more
  obtain ⟨rfl, rfl⟩ := pure_ok.1 h
  rfl

theorem Extends.throw (e : ε) : Extends (throw e : StateT (List β) (Except ε) α) := by
  intro src a rest h
  cases h

theorem Extends.bind {f : α → StateT (List β) (Except ε) γ} (hg : Extends g) (hf : ∀ a, Extends (f a)) :
    Extends (g >>= f) := by
  intro src c rest h more
  obtain ⟨a, mid, ha, hc⟩ := bind_ok.1 h
  exact bind_ok.2 ⟨a, mid ++ more, hg _ _ _ ha more, hf a _ _ _ hc more⟩

theorem Extends.map (hg : Extends g) (f : α → γ) : Extends (f <$> g) := by
  intro src c rest h more
  obtain ⟨a, ha, rfl⟩ := map_ok.1 h
  exact map_ok.2 ⟨a, hg _ _ _ ha more, rfl⟩

theorem Extends.ite {c : Prop} [Decidable c] {g' : StateT (List β) (Except ε) α} (hg : Extends g) (hg' : Extends g') :
    Extends (if c then g else g') := by
  split
  · exact hg
  · exact hg'

/-- Nothing is read off the front part of a text that is read as a whole. -/
theorem Reads.cut {bs cut : List β} {a : α} (h : Reads g bs a) (hg : Extends g) (hcut : cut <+: bs) (hne : cut ≠ bs) :
    ∃ e, g cut = .error e := by
  cases hread : g cut with
  | error e => exact ⟨e, rfl⟩
  | ok out =>
    obtain ⟨more, rfl⟩ := hcut
    have hwhole := hg cut out.1 out.2 hread more
    rw [h.all, Except.ok.injEq, Prod.mk.injEq] at hwhole
    have hnil := (List.append_eq_nil_iff.1 hwhole.2.symm).2
    exact absurd (by rw [hnil, List.append_nil]) hne

end Extends

/-! ## Words that mark their end -/

/-- Every element but the last one says that another follows. -/
inductive Word (more : β → Bool) : List β → Prop
  | last {b : β} : more b = false → Word more [b]
  | cons {b : β} {bs : List β} : more b = true → Word more bs → Word more (b :: bs)

section Word

variable {more : β → Bool} {w w' init rest rest' : List β} {last : β}

theorem word_concat (hinit : ∀ b ∈ init, more b = true) (hlast : more last = false) : Word more (init ++ [last]) := by
  induction init with
  | nil => exact .last hlast
  | cons b init ih =>
    obtain ⟨hb, hinit⟩ := List.forall_mem_cons.1 hinit
    exact .cons hb (ih hinit)

theorem Word.exists_concat (h : Word more w) :
    ∃ init last, w = init ++ [last] ∧ (∀ b ∈ init, more b = true) ∧ more last = false := by
  induction h with
  | @last b hb => exact ⟨[], b, rfl, by simp, hb⟩
  | @cons b _ hb _ ih =>
    obtain ⟨init, last, rfl, hinit, hlast⟩ := ih
    exact ⟨b :: init, last, rfl, List.forall_mem_cons.2 ⟨hb, hinit⟩, hlast⟩

theorem Word.length_pos (h : Word more w) : 0 < w.length := by
  cases h <;> simp

/-- A buffer starts with one word at most. -/
theorem Word.unique (h : Word more w) (h' : Word more w') (heq : w ++ rest = w' ++ rest') : w = w' ∧ rest = rest' := by
  induction h generalizing w' with
  | last hb =>
    cases h' with
    | last => simpa using heq
    | cons hb' =>
      simp only [List.cons_append, List.nil_append, List.cons.injEq] at heq
      rw [heq.1, hb'] at hb
      cases hb
  | cons hb _ ih =>
    cases h' with
    | last hb' =>
      simp only [List.cons_append, List.nil_append, List.cons.injEq] at heq
      rw [heq.1, hb'] at hb
      cases hb
    | cons _ hw' =>
      rw [List.cons_append, List.cons_append, List.cons.injEq] at heq
      obtain ⟨rfl, rfl⟩ := ih hw' heq.2
      exact ⟨by rw [heq.1], rfl⟩

/-- A buffer starts with a word, or ends before one does. -/
theorem word_or_all (more : β → Bool) (src : List β) :
    (∃ w rest, src = w ++ rest ∧ Word more w) ∨ ∀ b ∈ src, more b = true := by
  induction src with
  | nil => exact .inr (by simp)
  | cons b src ih =>
    cases hb : more b with
    | false => exact .inl ⟨[b], src, rfl, .last hb⟩
    | true =>
      rcases ih with ⟨w, rest, rfl, hw⟩ | hall
      · exact .inl ⟨b :: w, rest, rfl, .cons hb hw⟩
      · exact .inr (List.forall_mem_cons.2 ⟨hb, hall⟩)

end Word

end BedrockRs.Lib.Codec
