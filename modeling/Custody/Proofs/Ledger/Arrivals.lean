import Custody.Proofs.Ledger.Books

/-! What comes in, and what it does to the ledger: a handle that registers with a record, and
a new record with its owner. -/

namespace Custody

open Stake

namespace World

variable {w : World} {r : RecordId} {rec : Record}

/-! ### Registering -/

/-- `v` is `w` with one handle more for record `r`, under ticket `t`, that is nowhere yet. -/
structure Registers (w : World) (r : RecordId) (t : Option Ticket) (v : World) : Prop where
  found : ∃ rec, w.records[r]? = some rec ∧ rec.nextTicket = .ok t ∧
    w.Replaces r rec.enrol.acquire v
  stakes : v.stakes = w.stakes
  book : v.book = w.book

/-- Watching a record registers a handle, or changes nothing and gives none. -/
theorem watch_cases (r : RecordId) :
    (w.watch r = (.ok none, w) ∨ ∃ e, w.watch r = (.error e, w)) ∨
      ∃ t v, w.watch r = (.ok (some ⟨r, t⟩), v) ∧ w.Registers r t v := by
  unfold watch
  split
  · exact .inl (.inl rfl)
  · rename_i rec hrec
    split_ifs
    · exact .inl (.inl rfl)
    · split
      · rename_i e he
        exact .inl (.inr ⟨e, rfl⟩)
      · rename_i t ht
        refine .inr ⟨t, _, rfl, ⟨rec, hrec, ht, ?_⟩, ?_, ?_⟩
        · exact (replaces_modifyRecord hrec fun rec => rec.enrol.acquire).congr rfl
            (records_noteRegistered _ _)
        · rw [stakes_noteRegistered]
          exact stakes_modifyRecord_of_eq fun rec _ => ofRecord_enrol rec
        · exact (keeps_noteRegistered _ _).book.trans rfl

theorem eq_of_watch_error {v : World} {e : HeapRefusal} (hw : w.watch r = (.error e, v)) :
    v = w := by
  obtain (hw' | ⟨e', hw'⟩) | ⟨t, v', hw', -⟩ := watch_cases (w := w) r
  · cases hw'.symm.trans hw
  · exact (Prod.mk.inj (hw'.symm.trans hw)).2.symm
  · cases hw'.symm.trans hw

/-- The handle that comes of watching a record is put somewhere. -/
theorem step_watched {v u : World} {s : Soft} (hw : w.watch r = (.ok s, v))
    (hr : u.records = v.records) (hg : u.book = v.book) (hs : u.stakes = ofSoft s + v.stakes)
    (q : RecordId) : Holding.Step q (w.holding q) (u.holding q) := by
  obtain (hw' | ⟨e, hw'⟩) | ⟨t, v', hw', hreg⟩ := watch_cases (w := w) r
  · obtain ⟨⟨⟩, rfl⟩ := Prod.mk.inj (hw'.symm.trans hw)
    exact step_rest hr (by rw [hs, ofSoft_none, zero_add]) hg q
  · cases hw'.symm.trans hw
  · obtain ⟨⟨⟩, rfl⟩ := Prod.mk.inj (hw'.symm.trans hw)
    obtain ⟨rec, hrec, ht, hv⟩ := hreg.found
    exact step_replace (x := 0) hrec (hv.congr rfl hr) (hg.trans hreg.book) (zero_add _).symm
      (by rw [hs, ofSoft_some, hreg.stakes]) (by simp) (by simp [Stake.record])
      (fun c l => by simpa using .register ht) q

theorem soft?_noteRegistered (r : RecordId) (t : Option Ticket) :
    (w.noteRegistered r t).soft? = w.soft? := by
  unfold noteRegistered
  split
  · rfl
  · split_ifs <;> rfl

theorem soft?_watch (r : RecordId) : (w.watch r).2.soft? = w.soft? := by
  unfold watch
  split
  · rfl
  · split_ifs
    · rfl
    · split
      · rfl
      · exact (soft?_noteRegistered _ _).trans rfl

theorem step_attach (r : RecordId) (p : SoftPlace) (q : RecordId) :
    Holding.Step q (w.holding q) ((w.attach r p).2.holding q) := by
  unfold attach
  split_ifs with hp
  · obtain ⟨-, hempty⟩ : p.isLoose = true ∧ w.soft? p = some none := by simpa using hp
    split
    · rename_i e v hw
      rw [eq_of_watch_error hw]
      exact .rest _
    · rename_i s v hw
      have hv : v.soft? p = some none := by
        rw [← hempty, ← soft?_watch (w := w) r, hw]
      refine step_watched hw ?_ (keeps_setSoft p s).book ?_ q
      · cases p <;> rfl
      · simpa [add_comm] using stakes_setSoft hv s
  · exact .rest _

theorem step_newScan (r : Option RecordId) (i : UInt64) (q : RecordId) :
    Holding.Step q (w.holding q) ((w.newScan r i).2.holding q) := by
  unfold newScan
  split
  · refine step_rest ?_ ?_ ?_ q
    · rfl
    · exact (stakes_pushScan _).trans (zero_add _)
    · rfl
  · split
    · rename_i e v hw
      rw [eq_of_watch_error hw]
      exact .rest _
    · rename_i s v hw
      refine step_watched hw ?_ ?_ ?_ q
      · rfl
      · rfl
      · exact stakes_pushScan _

theorem step_newWalk (r : Option RecordId) (i : UInt64) (q : RecordId) :
    Holding.Step q (w.holding q) ((w.newWalk r i).2.holding q) := by
  unfold newWalk
  split
  · refine step_rest ?_ ?_ ?_ q
    · rfl
    · exact (stakes_pushWalk _).trans (by simp)
    · rfl
  · split
    · rename_i e v hw
      rw [eq_of_watch_error hw]
      exact .rest _
    · rename_i s v hw
      refine step_watched hw ?_ ?_ ?_ q
      · rfl
      · rfl
      · exact (stakes_pushWalk _).trans (by simp)

/-! ### Building -/

/-- A new record holds only values that no handle was stored in yet. -/
theorem isFresh_newRecord (h : HeapId) (k : Kind) (p : Plan) {b : Block} (hb : b.Formed)
    (hsize : b.payloadSize = k.element.layout.size * p.count.toNat) :
    (w.newRecord h k p b).IsFresh where
  object := rfl
  measured := by
    refine ⟨(length_newRecord w h k p b).symm ▸ p.count.toNat_lt, fun items ho => ?_⟩
    obtain rfl := Option.some.inj ho
    rfl
  block := rfl
  formed c hc := Option.some.inj hc ▸ hb
  filled c hc := by
    obtain rfl := Option.some.inj hc
    rw [length_newRecord]
    exact hsize
  borrow := rfl
  slots := ⟨_, _, _, rfl⟩
  orphaned := rfl
  handles := rfl

/-- A new record with its owner; nothing referred to its number before. -/
theorem step_found {v : World} (h : w.Sound) (hf : rec.IsFresh)
    (hr : v.records = w.records.push rec) (hs : v.stakes = {.owns w.records.size} + w.stakes)
    (hg : v.book = w.book) (q : RecordId) : Holding.Step q (w.holding q) (v.holding q) := by
  by_cases hq : q = w.records.size
  · subst hq
    have hnone : w.records[w.records.size]? = none := by simp
    obtain ⟨hst, hln⟩ := h.vacant hnone
    have hw : w.holding w.records.size = ⟨none, 0, 0⟩ := by rw [holding, hnone, hst, hln]
    have hv : v.holding w.records.size = ⟨some rec, {.owns w.records.size}, 0⟩ := by
      rw [holding, hr, loans_congr hg, hln, stakesIn_of_cons hs (r := w.records.size) rfl, hst,
        Array.getElem?_push_size]
      rfl
    rw [hw, hv]
    exact .found hf
  · have hv : v.holding q = w.holding q := by
      rw [holding, holding, hr, loans_congr hg, Array.getElem?_push, if_neg hq, stakesIn, hs,
        Multiset.singleton_add, Multiset.filter_cons_of_neg _ fun h => hq h.symm, stakesIn]
    rw [hv]
    exact .rest _

theorem step_construct (hs : w.Sound) (h : HeapId) (k : Kind) (p : Plan) (q : RecordId) :
    Holding.Step q (w.holding q) ((w.construct h k p).2.holding q) := by
  rw [construct_eq]
  split
  · exact .rest _
  · rename_i payload hpayload
    split
    · exact .rest _
    · rename_i b v hv
      obtain ⟨arena, ha, hv⟩ := allocate_eq_ok hv
      have hsize : b.payloadSize = k.element.layout.size * p.count.toNat :=
        (Arena.payloadSize_of_allocate ha).trans (Layout.size_of_array hpayload)
      have hvr : v.records = w.records := by rw [hv]; rfl
      have hvs : v.stakes = w.stakes := by rw [hv]; rfl
      have hvg : v.book = w.book := by rw [hv]; rfl
      split
      · rename_i n hn
        have hitems : tally ofTask ((p.items n).map .dropItem) = 0 := by
          rw [tally_map]
          exact tally_items p n
        refine step_rest ?_ ?_ ?_ q
        · exact (records_raise _).trans hvr
        · rw [stakes_raise, stakes_schedule, stakes_pushOwner, tally_append, hitems, ← hvs]
          simp [ofTask]
        · exact (keeps_raise _).book.trans hvg
      · refine step_found hs (isFresh_newRecord (w := v) h k p (Arena.formed_of_allocate ha) hsize)
          ?_ ?_ ?_ q
        · rw [← hvr]
        · have hrec : ofRecord (v.newRecord h k p b) = 0 := tally_items p _
          have hpush := stakes_pushRecord (w := v) (v.newRecord h k p b)
          rw [hrec, zero_add, hvs] at hpush
          rw [← hpush, ← hvr]
          exact stakes_pushOwner (w := { v with records := v.records.push _ }) _
        · exact hvg

end World

end Custody
