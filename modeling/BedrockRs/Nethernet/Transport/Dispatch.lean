/-
Which channel a signal is dispatched to (`transport/listener.rs`). The entry of a connection id should be
the channel of its latest offer, while that offer stands. The clean-ups and the error paths of
`handle_offer` go by the id alone: in runs where none of them meets another offer's entry, and no offer
fails behind its registration, the map is right whenever nothing is under way (`dispatches_of_clean`).
-/
import BedrockRs.Nethernet.Transport.Listener

namespace BedrockRs.Nethernet.Listener

open Lib

/-! ## What the map should hold -/

def offers (s : Listener) : List Offer := s.connections.map (·.toOffer)

/-- Offer `i` is the latest one with the id. -/
def IsLatest (offers : List Offer) (id : UInt64) (i : Nat) : Prop :=
  (offers.map (·.id))[i]? = some id ∧ ∀ j, i < j → (offers.map (·.id))[j]? ≠ some id

/-- The latest offer with the id, handled without error, whose peer connection has not failed or closed. -/
def Stands (offers : List Offer) (id : UInt64) (i : Nat) : Prop :=
  IsLatest offers id i ∧ ∃ o, offers[i]? = some o ∧ o.stage = .answered ∧ o.down = false

/-- The map holds the channels of the offers that stand, and no others. -/
def Dispatches (s : Listener) : Prop := ∀ id i, s.dispatchers.lookup id = some i ↔ Stands s.offers id i

/-- No offer is being handled, and no state callback waits for the map. -/
def Settled (s : Listener) : Prop := ∀ o ∈ s.offers, o.stage ≠ .handling ∧ o.callbacks = 0

instance (s : Listener) : Decidable s.Settled := by
  unfold Settled
  infer_instance

/-- The step meets no entry of another offer: an offer that cannot be made finds no entry under its id, and
none fails behind its registration; a peer connection fails or closes after the answer only, and is never
just disconnected; a callback finds its own entry or none, and a task that cleans up finds none. -/
def Clean (s : Listener) : Event → Prop
  | .offer id created => created = false → s.busy = false → s.dispatchers.lookup id = none
  | .fail => s.busy = false
  | .peer i state => ∀ c ∈ s.connections[i]?, c.stage ≠ .refused →
      state ≠ .disconnected ∧ (state = .failed ∨ state = .closed → c.stage = .answered)
  | .callback i => ∀ c ∈ s.connections[i]?, c.callbacks ≠ 0 → ∀ j ∈ s.dispatchers.lookup c.id, j = i
  | .cleanDispatcher i => ∀ c ∈ s.connections[i]?, c.task = .ended → s.dispatchers.lookup c.id = none
  | _ => True

instance (s : Listener) : ∀ e, Decidable (Clean s e)
  | .offer .. => inferInstanceAs (Decidable (_ → _ → _))
  | .fail => inferInstanceAs (Decidable (_ = _))
  | .peer i state => inferInstanceAs (Decidable (∀ c ∈ s.connections[i]?, c.stage ≠ .refused →
      state ≠ .disconnected ∧ (state = .failed ∨ state = .closed → c.stage = .answered)))
  | .callback i => inferInstanceAs (Decidable (∀ c ∈ s.connections[i]?, c.callbacks ≠ 0 →
      ∀ j ∈ s.dispatchers.lookup c.id, j = i))
  | .cleanDispatcher i => inferInstanceAs (Decidable (∀ c ∈ s.connections[i]?, c.task = .ended →
      s.dispatchers.lookup c.id = none))
  | .answer | .signal .. | .receive .. | .taskEnd .. | .cleanNotifier .. => inferInstanceAs (Decidable True)

/-! ## The invariant -/

/-- An offer that is not over. -/
def Ongoing (o : Offer) : Prop := o.stage = .handling ∨ o.stage = .answered

structure Inv (offers : List Offer) (dispatchers : HashMap UInt64 Nat) : Prop where
  entry : ∀ id i, dispatchers.lookup id = some i → IsLatest offers id i ∧
    ∃ o, offers[i]? = some o ∧ Ongoing o ∧ (o.down = true → 0 < o.callbacks)
  live : ∀ id i o, IsLatest offers id i → offers[i]? = some o → Ongoing o → o.down = false →
    dispatchers.lookup id = some i
  handling : ∀ o ∈ offers, o.stage = .handling → o.down = false
  callbacks : ∀ o ∈ offers, 0 < o.callbacks → o.down = true

theorem inv_new : Inv [] ∅ := by
  refine ⟨?_, ?_, ?_, ?_⟩
  · intro id i h
    cases h
  · intro id i o h
    cases h.1
  · simp
  · simp

/-- Once nothing is under way, the invariant says what the map holds. -/
theorem Inv.dispatches {s : Listener} (h : Inv s.offers s.dispatchers) (hsettled : s.Settled) : s.Dispatches := by
  intro id i
  constructor
  · intro hlookup
    obtain ⟨hlatest, o, ho, hongoing, hdown⟩ := h.entry id i hlookup
    obtain ⟨hstage, hcallbacks⟩ := hsettled o (List.mem_of_getElem? ho)
    refine ⟨hlatest, o, ho, hongoing.resolve_left hstage, ?_⟩
    by_contra hne
    have := hdown (by simpa using hne)
    omega
  · rintro ⟨hlatest, o, ho, hstage, hdown⟩
    exact h.live id i o hlatest ho (.inr hstage) hdown

theorem isLatest_concat {offers : List Offer} {o : Offer} {id : UInt64} {i : Nat} :
    IsLatest (offers ++ [o]) id i ↔ i = offers.length ∧ o.id = id ∨ o.id ≠ id ∧ IsLatest offers id i := by
  unfold IsLatest
  rw [List.map_append, List.map_singleton]
  have hlen : (offers.map (·.id)).length = offers.length := List.length_map _
  generalize offers.map (·.id) = ids at hlen
  rw [← hlen]
  constructor
  · rintro ⟨hi, hlast⟩
    -- an earlier offer stays the latest of its id unless the new one has the same id
    rcases Nat.lt_trichotomy i ids.length with hlt | rfl | hgt
    · right
      constructor
      · rintro rfl
        exact hlast ids.length hlt List.getElem?_concat_length
      · refine ⟨by rwa [List.getElem?_append_left hlt] at hi, fun j hij hj => ?_⟩
        exact hlast j hij (by rwa [List.getElem?_append_left (List.getElem?_eq_some_iff.1 hj).1])
    · left
      rw [List.getElem?_concat_length] at hi
      exact ⟨rfl, Option.some.inj hi⟩
    · rw [List.getElem?_eq_none (by rw [List.length_append, List.length_singleton]; omega)] at hi
      cases hi
  · rintro (⟨rfl, rfl⟩ | ⟨hne, hi, hlast⟩)
    · refine ⟨List.getElem?_concat_length, fun j hij => ?_⟩
      rw [List.getElem?_eq_none (by rw [List.length_append, List.length_singleton]; omega)]
      simp
    · refine ⟨by rwa [List.getElem?_append_left (List.getElem?_eq_some_iff.1 hi).1], fun j hij hj => ?_⟩
      rcases Nat.lt_trichotomy j ids.length with hlt | rfl | hgt
      · exact hlast j hij (by rwa [List.getElem?_append_left hlt] at hj)
      · rw [List.getElem?_concat_length] at hj
        exact hne (Option.some.inj hj)
      · rw [List.getElem?_eq_none (by rw [List.length_append, List.length_singleton]; omega)] at hj
        cases hj

theorem IsLatest.id_eq {offers : List Offer} {id : UInt64} {i : Nat} {o : Offer} (h : IsLatest offers id i)
    (ho : offers[i]? = some o) : o.id = id := by
  have hid := h.1
  rw [List.getElem?_map, ho] at hid
  exact Option.some.inj hid

/-- Which offer is the latest of an id is a matter of the ids. -/
theorem isLatest_congr {offers offers' : List Offer} (h : offers'.map (·.id) = offers.map (·.id)) (id : UInt64)
    (i : Nat) : IsLatest offers' id i ↔ IsLatest offers id i := by
  unfold IsLatest
  rw [h]

/-! ## Steps -/

theorem Inv.of_lookup {offers : List Offer} {d d' : HashMap UInt64 Nat} (h : Inv offers d)
    (hd : ∀ id, d'.lookup id = d.lookup id) : Inv offers d' :=
  ⟨fun id i => by rw [hd]; exact h.entry id i, fun id i o => by rw [hd]; exact h.live id i o, h.handling, h.callbacks⟩

/-- A new offer, which registers its channel or finds no entry under its id. -/
theorem Inv.offer {offers : List Offer} {d d' : HashMap UInt64 Nat} (h : Inv offers d) (id : UInt64) {stage : Stage}
    (hstage : stage = .handling ∧ d' = d.insert id offers.length ∨ stage = .refused ∧ d' = d ∧ d.lookup id = none) :
    Inv (offers ++ [⟨id, stage, false, 0⟩]) d' := by
  have hlast : (offers ++ [⟨id, stage, false, 0⟩])[offers.length]? = some ⟨id, stage, false, 0⟩ :=
    List.getElem?_concat_length
  -- both ways the entries of other ids stay
  have hother : ∀ id', id' ≠ id → d'.lookup id' = d.lookup id' := by
    intro id' hne
    rcases hstage with ⟨-, rfl⟩ | ⟨-, rfl, -⟩
    · exact AList.lookup_insert_ne hne
    · rfl
  constructor
  · intro id' i hlookup
    by_cases hid : id' = id
    · subst hid
      rcases hstage with ⟨rfl, rfl⟩ | ⟨-, rfl, hnone⟩
      · rw [AList.lookup_insert] at hlookup
        cases hlookup
        exact ⟨isLatest_concat.2 (.inl ⟨rfl, rfl⟩), _, hlast, .inl rfl, by simp⟩
      · rw [hnone] at hlookup
        cases hlookup
    · rw [hother id' hid] at hlookup
      obtain ⟨hlatest, o, ho, hongoing, hdown⟩ := h.entry id' i hlookup
      refine ⟨isLatest_concat.2 (.inr ⟨Ne.symm hid, hlatest⟩), o, ?_, hongoing, hdown⟩
      rwa [List.getElem?_append_left (List.getElem?_eq_some_iff.1 ho).1]
  · intro id' i o hlatest ho hongoing hdown
    rcases isLatest_concat.1 hlatest with ⟨rfl, rfl⟩ | ⟨hne, hlatest⟩
    · rw [hlast] at ho
      cases ho
      rcases hstage with ⟨rfl, rfl⟩ | ⟨rfl, -, -⟩
      · exact AList.lookup_insert _
      · rcases hongoing with hongoing | hongoing <;> cases hongoing
    · rw [hother id' (Ne.symm hne)]
      have hi : i < offers.length := by
        have := (List.getElem?_eq_some_iff.1 hlatest.1).1
        rwa [List.length_map] at this
      rw [List.getElem?_append_left hi] at ho
      exact h.live id' i o hlatest ho hongoing hdown
  · intro o ho hhandling
    rcases List.mem_append.1 ho with ho | ho
    · exact h.handling o ho hhandling
    · rw [List.mem_singleton.1 ho]
  · intro o ho hpos
    rcases List.mem_append.1 ho with ho | ho
    · exact h.callbacks o ho hpos
    · rw [List.mem_singleton.1 ho] at hpos
      exact absurd hpos (Nat.lt_irrefl 0)

/-- What a step of the peer connection or of `handle_offer` may do to an offer. -/
structure Keeps (o o' : Offer) : Prop where
  id : o'.id = o.id
  ongoing : Ongoing o' ↔ Ongoing o
  up : o'.down = false → o.down = false
  waits : (o.down = true → 0 < o.callbacks) → o'.down = true → 0 < o'.callbacks
  handling : o'.stage = .handling → o.stage = .handling ∧ o'.down = o.down
  callbacks : (0 < o.callbacks → o.down = true) → 0 < o'.callbacks → o'.down = true

theorem Keeps.refl (o : Offer) : Keeps o o :=
  ⟨rfl, Iff.rfl, fun h => h, fun h => h, fun h => ⟨h, rfl⟩, fun h => h⟩

theorem map_id_of_keeps {offers offers' : List Offer} (h : List.Forall₂ Keeps offers offers') :
    offers'.map (·.id) = offers.map (·.id) := by
  induction h with
  | nil => rfl
  | cons ho _ ih => rw [List.map_cons, List.map_cons, ho.id, ih]

theorem Inv.keeps {offers offers' : List Offer} {d : HashMap UInt64 Nat} (h : Inv offers d)
    (hkeeps : List.Forall₂ Keeps offers offers') : Inv offers' d := by
  have hlatest := isLatest_congr (map_id_of_keeps hkeeps)
  have hget : ∀ (i : Nat) (o' : Offer), offers'[i]? = some o' → ∃ o, offers[i]? = some o ∧ Keeps o o' := by
    intro i o' ho'
    obtain ⟨hi', rfl⟩ := List.getElem?_eq_some_iff.1 ho'
    have hi : i < offers.length := hkeeps.length_eq ▸ hi'
    exact ⟨offers[i], List.getElem?_eq_getElem hi, List.forall₂_iff_get.1 hkeeps |>.2 i hi hi'⟩
  -- each part of the invariant is read at the same position before and after
  constructor
  · intro id i hlookup
    obtain ⟨hl, o, ho, hongoing, hdown⟩ := h.entry id i hlookup
    obtain ⟨hi, -⟩ := List.getElem?_eq_some_iff.1 ho
    have hi' : i < offers'.length := hkeeps.length_eq ▸ hi
    obtain ⟨o₀, ho₀, hk⟩ := hget i offers'[i] (List.getElem?_eq_getElem hi')
    rw [ho] at ho₀
    cases ho₀
    exact ⟨(hlatest id i).2 hl, _, List.getElem?_eq_getElem hi', hk.ongoing.2 hongoing, hk.waits hdown⟩
  · intro id i o' hl ho' hongoing hdown
    obtain ⟨o, ho, hk⟩ := hget i o' ho'
    exact h.live id i o ((hlatest id i).1 hl) ho (hk.ongoing.1 hongoing) (hk.up hdown)
  · intro o' ho' hhandling
    obtain ⟨i, hi⟩ := List.mem_iff_getElem?.1 ho'
    obtain ⟨o, ho, hk⟩ := hget i o' hi
    obtain ⟨hstage, hdown⟩ := hk.handling hhandling
    rw [hdown]
    exact h.handling o (List.mem_of_getElem? ho) hstage
  · intro o' ho' hpos
    obtain ⟨i, hi⟩ := List.mem_iff_getElem?.1 ho'
    obtain ⟨o, ho, hk⟩ := hget i o' hi
    exact hk.callbacks (h.callbacks o (List.mem_of_getElem? ho)) hpos

/-- A state callback that has had the map. -/
def called (o : Offer) : Offer := { o with callbacks := o.callbacks - 1 }

/-- A state callback that finds its own entry or none. -/
theorem Inv.callback {offers : List Offer} {d : HashMap UInt64 Nat} (h : Inv offers d) {i : Nat} {o : Offer}
    (ho : offers[i]? = some o) (hpos : o.callbacks ≠ 0) (hown : ∀ j, d.lookup o.id = some j → j = i) :
    Inv (offers.modify i called) (d.erase o.id) := by
  have hdown : o.down = true := h.callbacks o (List.mem_of_getElem? ho) (Nat.pos_of_ne_zero hpos)
  -- a callback changes no id, so the latest offer of each id is the same
  have hids : (offers.modify i called).map (·.id) = offers.map (·.id) := by
    refine List.ext_getElem? fun j => ?_
    rw [List.getElem?_map, List.getElem?_map, List.getElem?_modify]
    cases offers[j]? with
    | none => rfl
    | some o' =>
      by_cases hij : i = j
      · simp [hij, called]
      · simp [hij]
  have hlatest := isLatest_congr hids
  have hget : ∀ (j : Nat) (o' : Offer), (offers.modify i called)[j]? = some o' →
      ∃ o, offers[j]? = some o ∧ o'.stage = o.stage ∧ o'.down = o.down ∧ o'.callbacks ≤ o.callbacks := by
    intro j o' hj
    rw [List.getElem?_modify] at hj
    obtain ⟨o, ho, rfl⟩ := Option.map_eq_some_iff.1 hj
    refine ⟨o, ho, ?_⟩
    by_cases hij : i = j
    · simp [hij, called]
    · simp [hij]
  constructor
  · intro id j hlookup
    have hne : id ≠ o.id := by
      rintro rfl
      rw [AList.lookup_erase] at hlookup
      cases hlookup
    rw [AList.lookup_erase_ne hne] at hlookup
    obtain ⟨hl, o', ho', hongoing, hwaits⟩ := h.entry id j hlookup
    have hij : i ≠ j := by
      rintro rfl
      rw [ho] at ho'
      cases ho'
      exact hne (hl.id_eq ho).symm
    exact ⟨(hlatest id j).2 hl, o', by rw [List.getElem?_modify_ne called offers hij, ho'], hongoing, hwaits⟩
  · intro id j o' hl hj hongoing hup
    obtain ⟨o₀, ho₀, hstage, hdown₀, -⟩ := hget j o' hj
    have hlookup :=
      h.live id j o₀ ((hlatest id j).1 hl) ho₀ (by unfold Ongoing at *; rwa [hstage] at hongoing)
        (by rw [← hdown₀, hup])
    have hne : id ≠ o.id := by
      rintro rfl
      -- an entry of this id is the one of the offer itself, which is down
      obtain rfl := hown j hlookup
      rw [ho] at ho₀
      cases ho₀
      rw [hdown₀, hdown] at hup
      cases hup
    rwa [AList.lookup_erase_ne hne]
  · intro o' ho' hhandling
    obtain ⟨j, hj⟩ := List.mem_iff_getElem?.1 ho'
    obtain ⟨o₀, ho₀, hstage, hdown₀, -⟩ := hget j o' hj
    rw [hdown₀]
    exact h.handling o₀ (List.mem_of_getElem? ho₀) (by rw [← hstage, hhandling])
  · intro o' ho' hpos'
    obtain ⟨j, hj⟩ := List.mem_iff_getElem?.1 ho'
    obtain ⟨o₀, ho₀, -, hdown₀, hle⟩ := hget j o' hj
    rw [hdown₀]
    exact h.callbacks o₀ (List.mem_of_getElem? ho₀) (by omega)

/-! ## Runs -/

/-- A change of one connection, as it shows in its offer. -/
theorem offers_modify {s : Listener} {i : Nat} {f : Connection → Connection} {g : Offer → Offer}
    (h : ∀ c, (f c).toOffer = g c.toOffer) : (s.modify i f).offers = s.offers.modify i g := by
  refine List.ext_getElem? fun j => ?_
  unfold offers modify
  rw [List.getElem?_map, List.getElem?_modify, List.getElem?_modify, List.getElem?_map]
  cases s.connections[j]? with
  | none => rfl
  | some c =>
    by_cases hij : i = j
    · simp [hij, h]
    · simp [hij]

/-- A change that does not show in the offer. -/
theorem Inv.modify {s : Listener} {d : HashMap UInt64 Nat} (h : Inv s.offers d) {i : Nat} {f : Connection → Connection}
    (hf : ∀ c, (f c).toOffer = c.toOffer) : Inv (s.modify i f).offers d := by
  rwa [offers_modify (g := id) hf, List.modify_id]

theorem forall₂_modify {i : Nat} {g : Offer → Offer} :
    ∀ {offers : List Offer}, (∀ o, offers[i]? = some o → Keeps o (g o)) →
      List.Forall₂ Keeps offers (offers.modify i g) := by
  intro offers h
  refine List.forall₂_iff_get.2 ⟨(List.length_modify g offers i).symm, fun j hj hj' => ?_⟩
  rw [List.get_eq_getElem, List.get_eq_getElem, List.getElem_modify]
  split_ifs with hij
  · subst hij
    exact h _ (List.getElem?_eq_getElem hj)
  · exact Keeps.refl _

theorem keeps_answered (o : Offer) :
    Keeps o (if o.stage = .handling then { o with stage := .answered } else o) := by
  split_ifs with hstage
  · refine ⟨rfl, iff_of_true (.inr rfl) (.inl hstage), fun h => h, fun h => h, fun h => ?_, fun h => h⟩
    cases h
  · exact Keeps.refl o

/-- A state change, as it shows in the offer. -/
def changed (state : PeerState) (o : Offer) : Offer :=
  if o.stage = .refused then o
  else
    { o with
      down := o.down || (state = .failed || state = .closed)
      callbacks := if o.stage = .answered ∧ cleansUp state then o.callbacks + 1 else o.callbacks }

theorem toOffer_changeState (state : PeerState) (c : Connection) :
    (changeState state c).toOffer = changed state c.toOffer := by
  unfold changeState changed
  split_ifs <;> rfl

theorem keeps_changed {state : PeerState} {o : Offer} (hstate : o.stage ≠ .refused → state ≠ .disconnected)
    (hanswered : o.stage ≠ .refused → state = .failed ∨ state = .closed → o.stage = .answered) :
    Keeps o (changed state o) := by
  unfold changed
  by_cases hrefused : o.stage = .refused
  · rw [if_pos hrefused]
    exact Keeps.refl o
  rw [if_neg hrefused]
  by_cases hclosing : state = .failed ∨ state = .closed
  · have hstage := hanswered hrefused hclosing
    have hcleans : cleansUp state = true := by
      rcases hclosing with rfl | rfl <;> rfl
    have hdown : (o.down || (decide (state = .failed) || decide (state = .closed))) = true := by
      rcases hclosing with rfl | rfl <;> simp
    rw [hdown, if_pos ⟨hstage, hcleans⟩]
    refine ⟨rfl, Iff.rfl, fun h => (by cases h), fun _ _ => Nat.succ_pos _, fun h => ?_, fun _ _ => rfl⟩
    change o.stage = .handling at h
    rw [hstage] at h
    cases h
  · have hcleans : cleansUp state = false := by
      have := hstate hrefused
      cases state <;> simp_all [cleansUp]
    have hdown : (o.down || (decide (state = .failed) || decide (state = .closed))) = o.down := by
      obtain ⟨hfailed, hclosed⟩ := not_or.1 hclosing
      simp [hfailed, hclosed]
    rw [hdown, if_neg (by simp [hcleans])]
    exact Keeps.refl o

/-- The failure of a handler shows only while one is running. -/
theorem connections_failed {s : Listener} (h : s.busy = false) : (s.finish .failed).connections = s.connections := by
  have hnone : ∀ c ∈ s.connections, c.stage ≠ .handling := by
    simpa [busy] using h
  exact (List.map_congr_left fun c hc => if_neg (hnone c hc)).trans (List.map_id' _)

theorem offers_answered (s : Listener) : (s.finish .answered).offers =
    s.offers.map fun o => if o.stage = .handling then { o with stage := .answered } else o := by
  unfold finish offers
  rw [List.map_map, List.map_map]
  refine List.map_congr_left fun c _ => ?_
  simp only [Function.comp]
  split_ifs <;> rfl

theorem getElem?_offers {s : Listener} {i : Nat} {o : Offer} :
    s.offers[i]? = some o ↔ ∃ c, s.connections[i]? = some c ∧ c.toOffer = o := by
  unfold offers
  rw [List.getElem?_map]
  exact Option.map_eq_some_iff

/-- The callback that a state change starts is counted on the offer whose peer connection went down. -/
theorem Inv.peer {s : Listener} (h : Inv s.offers s.dispatchers) {i : Nat} {state : PeerState}
    (hclean : Clean s (.peer i state)) : Inv (s.modify i (changeState state)).offers s.dispatchers := by
  rw [offers_modify (toOffer_changeState state)]
  refine h.keeps (forall₂_modify fun o ho => ?_)
  obtain ⟨c, hc, rfl⟩ := getElem?_offers.1 ho
  exact keeps_changed (fun hne => (hclean c hc hne).1) fun hne => (hclean c hc hne).2

/-- A task that ends erases by id: a clean one finds no entry, so the map keeps its answers. -/
theorem Inv.erase {offers : List Offer} {d : HashMap UInt64 Nat} (h : Inv offers d) {id : UInt64}
    (hnone : d.lookup id = none) : Inv offers (d.erase id) := by
  refine h.of_lookup fun id' => ?_
  by_cases hid : id' = id
  · rw [hid, AList.lookup_erase, hnone]
  · exact AList.lookup_erase_ne hid

theorem inv_step {s : Listener} (h : Inv s.offers s.dispatchers) (e : Event) (hclean : Clean s e) :
    Inv (step s e).offers (step s e).dispatchers := by
  cases e with
  | offer id created =>
    cases hbusy : s.busy with
    | true => simpa [step, hbusy] using h
    | false =>
      have hlen : s.offers.length = s.connections.length := List.length_map _
      cases created with
      | true =>
        have hinv := h.offer id (.inl ⟨rfl, rfl⟩)
        rw [hlen] at hinv
        simpa [step, hbusy, offers] using hinv
      | false =>
        have hinv := h.offer id (.inr ⟨rfl, rfl, hclean rfl hbusy⟩)
        simpa [step, hbusy, offers] using hinv
  | fail =>
    show Inv ((s.finish .failed).connections.map (·.toOffer)) s.dispatchers
    rw [connections_failed hclean]
    exact h
  | answer =>
    show Inv (s.finish .answered).offers s.dispatchers
    rw [offers_answered]
    exact h.keeps (List.forall₂_map_right_iff.2 (List.forall₂_same.2 fun o _ => keeps_answered o))
  | signal type id =>
    unfold step
    dsimp only
    split_ifs
    · exact h
    · cases s.dispatchers.lookup id with
      | none => exact h
      | some i =>
        exact h.modify fun _ => rfl
  | peer i state => exact h.peer hclean
  | callback i =>
    cases hc : s.connections[i]? with
    | none => simpa [step, hc] using h
    | some c =>
      by_cases hpos : c.callbacks = 0
      · simpa [step, hc, hpos] using h
      · have hinv := h.callback (getElem?_offers.2 ⟨c, hc, rfl⟩) hpos (hclean c hc hpos)
        have hoffers : (s.modify i fun c => { c with callbacks := c.callbacks - 1 }).offers =
            s.offers.modify i called :=
          offers_modify fun c => rfl
        rw [← hoffers] at hinv
        simp only [step, hc, if_neg hpos]
        exact hinv
  | receive i added =>
    cases hc : s.connections[i]? with
    | none => simpa [step, hc] using h
    | some c =>
      cases hqueue : c.queue with
      | nil => simpa [step, hc, hqueue] using h
      | cons type queue =>
        simp only [step, hc, hqueue]
        split_ifs
        · exact h.modify fun _ => rfl
        · exact h.modify fun _ => rfl
  | taskEnd i =>
    cases hc : s.connections[i]? with
    | none => simpa [step, hc] using h
    | some c =>
      simp only [step, hc]
      split_ifs
      · exact h.modify fun _ => rfl
      · exact h
  | cleanDispatcher i =>
    cases hc : s.connections[i]? with
    | none => simpa [step, hc] using h
    | some c =>
      simp only [step, hc]
      split_ifs with hended
      · exact (h.erase (hclean c hc hended)).modify fun _ => rfl
      · exact h
  | cleanNotifier i =>
    cases hc : s.connections[i]? with
    | none => simpa [step, hc] using h
    | some c =>
      simp only [step, hc]
      split_ifs
      · exact h.modify fun _ => rfl
      · exact h

/-- Signal dispatch: in every run none of whose steps meets an entry of another offer, the map holds,
whenever nothing is under way, exactly the channels of the offers that stand. -/
theorem dispatches_of_clean (events : List Event) (hclean : Machine.Along step Clean new events)
    (hsettled : (run events).Settled) : (run events).Dispatches :=
  (Machine.run_inv (P := fun s => Inv s.offers s.dispatchers) (fun _ e h hc => inv_step h e hc) events inv_new
    hclean).dispatches hsettled

/-- An offer whose connection closes, is cleaned up and is offered again under the same id. -/
theorem dispatches_of_clean_reoffered :
    (run
      [.offer 7 true, .answer, .signal .candidate 7, .receive 0 true, .peer 0 .closed, .callback 0, .taskEnd 0,
      .cleanDispatcher 0, .cleanNotifier 0, .offer 7 true, .answer]).Dispatches :=
  dispatches_of_clean _ (by decide +kernel) (by decide +kernel)

theorem not_dispatches_of_lookup_ne {s : Listener} {id : UInt64} {i : Nat} (hstands : Stands s.offers id i)
    (hlookup : s.dispatchers.lookup id ≠ some i) : ¬ s.Dispatches := fun h => hlookup ((h id i).2 hstands)

/-- An id is offered again while its first connection stands. The task of the first offer ends, since its
sender was replaced, and removes the entry of the second; so does the state callback of the first
connection. And an offer that fails behind its registration leaves its entry. -/
theorem dispatches_fails :
    ((run [.offer 7 true, .answer, .offer 7 true, .answer, .taskEnd 0, .cleanDispatcher 0]).Settled ∧
      ¬ (run [.offer 7 true, .answer, .offer 7 true, .answer, .taskEnd 0, .cleanDispatcher 0]).Dispatches) ∧
    ((run [.offer 7 true, .answer, .offer 7 true, .answer, .peer 0 .closed, .callback 0]).Settled ∧
      ¬ (run [.offer 7 true, .answer, .offer 7 true, .answer, .peer 0 .closed, .callback 0]).Dispatches) ∧
    (run [.offer 7 true, .fail]).Settled ∧ ¬ (run [.offer 7 true, .fail]).Dispatches := by
  have hlatest : ∀ {o o' : Offer}, o.id = 7 → o'.id = 7 → IsLatest [o, o'] 7 1 := by
    rintro o o' ho ho'
    have hlast : IsLatest ([o] ++ [o']) 7 1 := isLatest_concat.2 (.inl ⟨rfl, ho'⟩)
    exact hlast
  refine ⟨⟨by decide +kernel, ?_⟩, ⟨by decide +kernel, ?_⟩, by decide +kernel, ?_⟩
  · exact not_dispatches_of_lookup_ne (i := 1) ⟨hlatest rfl rfl, _, rfl, rfl, rfl⟩ (by decide +kernel)
  · exact not_dispatches_of_lookup_ne (i := 1) ⟨hlatest rfl rfl, _, rfl, rfl, rfl⟩ (by decide +kernel)
  · intro h
    obtain ⟨-, o, ho, hstage, -⟩ := (h 7 0).1 (by decide +kernel)
    cases ho
    cases hstage

end BedrockRs.Nethernet.Listener
