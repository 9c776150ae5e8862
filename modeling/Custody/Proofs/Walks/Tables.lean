import Custody.Proofs.Destruction
import Custody.Proofs.Ledger.Places

/-! Chained tables. A table is an array whose elements own chains of single objects. The
records of a chain are determined by where it starts, and no record is in two places of one
table, since it has one owner. -/

namespace Custody

open Stake

namespace World

variable {v w : World} {t r : RecordId} {o o' : Owner} {rs rs' : List RecordId}
  {chains : List (List RecordId)}

/-- `o` owns the first of the objects, each owns the next one, and the last owns nothing. Each
is a single element, alive, and not exclusively borrowed. -/
inductive Chain (w : World) : Owner → List RecordId → Prop where
  | nil : Chain w none []
  | cons {r : RecordId} {rs : List RecordId} {i : Item} :
    w.open? r .shared = .ok [i] → Chain w i.link rs → Chain w (some r) (r :: rs)

/-- The elements of an array, alive and not exclusively borrowed, own the chains. -/
def Table (w : World) (t : RecordId) (chains : List (List RecordId)) : Prop :=
  ∃ items, w.open? t .shared = .ok items ∧ List.Forall₂ (fun i rs => w.Chain i.link rs) items chains

/-! ### What can be read -/

theorem open?_eq_ok {a : Access} {items : List Item} (h : w.open? r a = .ok items) :
    w.isAlive r = true ∧ w.object? r = some items := by
  unfold open? at h
  split at h
  · rename_i rec hr
    unfold Record.open? Record.alive at h
    split_ifs at h with ho
    · cases h
    · cases hobj : rec.object with
      | none => simp [hobj, bind, Except.bind] at h
      | some its =>
        cases ht : rec.borrow.take a with
        | error e => simp [hobj, ht, bind, Except.bind] at h
        | ok b =>
          obtain rfl : its = items := by
            simpa [hobj, ht, bind, Except.bind, pure, Except.pure] using h
          exact ⟨by simp [isAlive, hr, Record.isAlive, hobj, ho],
            by rw [object?_of_record hr, hobj]⟩
  · cases h

/-- Element `n` of the object of record `p` owns `r`. -/
def OwnsAt (w : World) (p : RecordId) (n : Nat) (r : RecordId) : Prop :=
  ∃ items i, w.object? p = some items ∧ items[n]? = some i ∧ i.link = some r

/-- The stakes of records are among all stakes. -/
theorem tally_records_le_stakes (w : World) : tally ofRecord w.records.toList ≤ w.stakes := by
  rw [stakes, add_right_comm]
  exact Multiset.le_add_left _ _

/-- An object has one owner at most. -/
theorem Sound.count_owns_le_one (h : w.Sound) (hs : .owns r ∈ w.stakes) :
    w.stakes.count (.owns r) ≤ 1 := by
  obtain ⟨rec, hr⟩ := h.record_of_mem (s := .owns r) (r := r) hs rfl
  rw [← count_stakesIn, Stake.record, (h.agrees hr).owned]
  exact Bool.toNat_le _

/-- Two elements with the same object are not both there. -/
theorem Sound.not_add_le_stakes (h : w.Sound) {i j : Item} (hi : i.link = some r)
    (hj : j.link = some r) : ¬ ofItem i + ofItem j ≤ w.stakes := by
  intro hle
  have hone {k : Item} (hk : k.link = some r) : 0 < (ofItem k).count (.owns r) :=
    Multiset.count_pos.mpr (owns_mem_ofItem.mpr hk)
  have hi := hone hi
  have hj := hone hj
  have hcount :
      (ofItem i).count (.owns r) + (ofItem j).count (.owns r) ≤ w.stakes.count (.owns r) := by
    rw [← Multiset.count_add]
    exact Multiset.count_le_of_le _ hle
  have hmem : .owns r ∈ w.stakes := Multiset.count_pos.mp (by omega)
  have hmost := h.count_owns_le_one hmem
  omega

/-- An object is owned in one place. -/
theorem Sound.owner_unique (h : w.Sound) {p q : RecordId} {m n : Nat} (hp : w.OwnsAt p m r)
    (hq : w.OwnsAt q n r) : p = q ∧ m = n := by
  obtain ⟨itemsp, i, hobjp, hi, hil⟩ := hp
  obtain ⟨itemsq, j, hobjq, hj, hjl⟩ := hq
  obtain ⟨recp, hrecp, hobjp⟩ := Option.bind_eq_some_iff.mp hobjp
  obtain ⟨recq, hrecq, hobjq⟩ := Option.bind_eq_some_iff.mp hobjq
  have hofp : ofRecord recp = tally ofItem itemsp := by rw [ofRecord, hobjp, Option.getD_some]
  have hofq : ofRecord recq = tally ofItem itemsq := by rw [ofRecord, hobjq, Option.getD_some]
  have htwo := h.not_add_le_stakes hil hjl
  have hle := tally_records_le_stakes w
  by_cases hpq : p = q
  · subst hpq
    obtain rfl : recp = recq := Option.some.inj (hrecp.symm.trans hrecq)
    obtain rfl : itemsp = itemsq := Option.some.inj (hobjp.symm.trans hobjq)
    refine ⟨rfl, ?_⟩
    by_contra hmn
    have hitems : ofItem i + ofItem j ≤ ofRecord recp := hofp ▸ add_le_tally hi hj hmn
    have hrec : ofRecord recp ≤ w.stakes := (le_tally (by simpa using hrecp)).trans hle
    exact htwo (hitems.trans hrec)
  · have hrecs : ofRecord recp + ofRecord recq ≤ w.stakes :=
      (add_le_tally (by simpa using hrecp) (by simpa using hrecq) hpq).trans hle
    have hi' : ofItem i ≤ ofRecord recp := hofp ▸ le_tally hi
    have hj' : ofItem j ≤ ofRecord recq := hofq ▸ le_tally hj
    exact absurd ((add_le_add hi' hj').trans hrecs) htwo

/-! ### Chains -/

theorem Chain.unique (h : w.Chain o rs) (k : w.Chain o rs') : rs = rs' := by
  induction h generalizing rs' with
  | nil =>
    cases k
    rfl
  | cons hr _ ih =>
    cases k with
    | cons hr' hk =>
      obtain rfl := (List.cons.inj (Except.ok.inj (hr.symm.trans hr'))).1
      rw [ih hk]

theorem Chain.of_append {a b : List RecordId} (h : w.Chain o (a ++ r :: b)) :
    w.Chain (some r) (r :: b) := by
  induction a generalizing o with
  | nil =>
    cases h with
    | cons hr h => exact .cons hr h
  | cons p a ih =>
    cases h with
    | cons _ h => exact ih h

/-- A chain that came back to one of its records would have no end. -/
theorem Chain.nodup (h : w.Chain o rs) : rs.Nodup := by
  induction h with
  | nil => exact List.nodup_nil
  | @cons r rs i hr h ih =>
    refine List.nodup_cons.mpr ⟨fun hmem => ?_, ih⟩
    obtain ⟨a, b, rfl⟩ := List.append_of_mem hmem
    have hrest : b = a ++ r :: b := (List.cons.inj (h.of_append.unique (.cons hr h))).2
    have hlength := congrArg List.length hrest
    rw [List.length_append, List.length_cons] at hlength
    omega

theorem Chain.isAlive (h : w.Chain o rs) (hr : r ∈ rs) : w.isAlive r = true := by
  induction h with
  | nil => cases hr
  | cons hopen _ ih =>
    obtain rfl | hr := List.mem_cons.mp hr
    · exact (open?_eq_ok hopen).1
    · exact ih hr

theorem Chain.ownsAt (h : w.Chain o rs) (hr : r ∈ rs) : o = some r ∨ ∃ q ∈ rs, w.OwnsAt q 0 r := by
  induction h with
  | nil => cases hr
  | @cons p rs i hp h ih =>
    obtain rfl | hr := List.mem_cons.mp hr
    · exact .inl rfl
    · refine .inr ?_
      obtain hl | ⟨q, hq, hown⟩ := ih hr
      · exact ⟨p, List.mem_cons_self, [i], i, (open?_eq_ok hp).2, rfl, hl⟩
      · exact ⟨q, List.mem_cons_of_mem _ hq, hown⟩

theorem Chain.eq_cons (h : w.Chain (some r) rs) : ∃ tail, rs = r :: tail := by
  cases h with
  | cons => exact ⟨_, rfl⟩

theorem Chain.first_mem (h : w.Chain (some r) rs) : r ∈ rs := by
  obtain ⟨tail, rfl⟩ := h.eq_cons
  exact List.mem_cons_self

/-- Two chains with a common record: going back from owner to owner, one is found to start
within the other. -/
theorem Sound.first_of_common (hs : w.Sound) (h : w.Chain o rs) (h' : w.Chain o' rs') (hr : r ∈ rs)
    (hr' : r ∈ rs') : (∃ p, o = some p ∧ p ∈ rs') ∨ ∃ p, o' = some p ∧ p ∈ rs := by
  induction h with
  | nil => cases hr
  | @cons p rs i hp h ih =>
    obtain rfl | hr := List.mem_cons.mp hr
    · exact .inl ⟨r, rfl, hr'⟩
    · obtain ⟨q, hl, hq⟩ | ⟨q, hl, hq⟩ := ih hr
      · have hown : w.OwnsAt p 0 q := ⟨[i], i, (open?_eq_ok hp).2, rfl, hl⟩
        obtain ho' | ⟨p', hp', hown'⟩ := h'.ownsAt hq
        · exact .inr ⟨q, ho', List.mem_cons_of_mem _ (hl ▸ h).first_mem⟩
        · obtain rfl := (hs.owner_unique hown hown').1
          exact .inl ⟨p, rfl, hp'⟩
      · exact .inr ⟨q, hl, List.mem_cons_of_mem _ hq⟩

/-! ### Tables -/

theorem Table.isAlive (h : w.Table t chains) : w.isAlive t = true := by
  obtain ⟨items, hopen, -⟩ := h
  exact (open?_eq_ok hopen).1

/-- The chain of a bucket. -/
theorem Table.chain (h : w.Table t chains) {n : Nat} (hn : chains[n]? = some rs) :
    ∃ items i, w.open? t .shared = .ok items ∧ items[n]? = some i ∧ w.Chain i.link rs := by
  obtain ⟨items, hopen, hall⟩ := h
  obtain ⟨hlt, rfl⟩ := List.getElem?_eq_some_iff.mp hn
  have hlt' : n < items.length := hall.length_eq ▸ hlt
  exact ⟨items, items[n], hopen, List.getElem?_eq_getElem hlt', hall.get hlt' hlt⟩

theorem Sound.start_of_common (hs : w.Sound) (ht : w.Table t chains) {m n : Nat}
    (hm : chains[m]? = some rs) (hn : chains[n]? = some rs') {items : List Item} {i : Item}
    (hopen : w.open? t .shared = .ok items) (hi : items[m]? = some i) (hl : i.link = some r)
    (hr : r ∈ rs') : m = n := by
  obtain ⟨items', j, hopen', hj, hchain⟩ := ht.chain hn
  obtain rfl := Except.ok.inj (hopen.symm.trans hopen')
  have hobj := (open?_eq_ok hopen).2
  have hown : w.OwnsAt t m r := ⟨items, i, hobj, hi, hl⟩
  obtain hl' | ⟨q, hq, hown'⟩ := hchain.ownsAt hr
  · exact (hs.owner_unique hown ⟨items, j, hobj, hj, hl'⟩).2
  · -- the table itself would be in the chain, as a single element, with one bucket
    obtain ⟨rfl, rfl⟩ := hs.owner_unique hown hown'
    obtain ⟨a, b, rfl⟩ := List.append_of_mem hq
    cases hchain.of_append with
    | cons hone =>
      obtain rfl := Except.ok.inj (hopen.symm.trans hone)
      obtain ⟨hlt, -⟩ := List.getElem?_eq_some_iff.mp hj
      simp at hlt
      exact hlt.symm

/-- No record is in two places of a table. -/
theorem Sound.table_nodup (hs : w.Sound) (ht : w.Table t chains) : chains.flatten.Nodup := by
  refine List.nodup_flatten.mpr ⟨fun rs hrs => ?_, List.pairwise_iff_getElem.mpr ?_⟩
  · obtain ⟨n, hn⟩ := List.mem_iff_getElem?.mp hrs
    obtain ⟨-, i, -, -, hchain⟩ := ht.chain hn
    exact hchain.nodup
  · intro m n hm hn hlt r hr hr'
    have hm := List.getElem?_eq_getElem hm
    have hn := List.getElem?_eq_getElem hn
    obtain ⟨items, i, hopen, hi, hchain⟩ := ht.chain hm
    obtain ⟨items', j, hopen', hj, hchain'⟩ := ht.chain hn
    obtain ⟨p, hl, hp⟩ | ⟨p, hl, hp⟩ := hs.first_of_common hchain hchain' hr hr'
    · exact hlt.ne (hs.start_of_common ht hm hn hopen hi hl hp)
    · exact hlt.ne' (hs.start_of_common ht hn hm hopen' hj hl hp)

end World

end Custody
