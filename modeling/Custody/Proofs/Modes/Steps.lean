import Custody.Proofs.Modes.Twins
import Custody.Proofs.Ledger.Sources

/-! What is done to a world and to its twin alike leaves twins: they see the same, so they
do the same. Registering and giving up a ticket, telling observers and keeping a block
change nothing that twins share. -/

namespace Custody

open Stake

namespace World

variable {u v w : World} {r : RecordId}

/-! ### What twins see -/

theorem Twin.record_cases (h : w.Twin v) (r : RecordId) :
    (w.records[r]? = none ∧ v.records[r]? = none) ∨
      ∃ a b, w.records[r]? = some a ∧ v.records[r]? = some b ∧ a.Twin b := by
  have hr := h.records r
  cases hw : w.records[r]? <;> cases hv : v.records[r]? <;> rw [hw, hv] at hr
  · exact .inl ⟨rfl, rfl⟩
  · cases hr
  · cases hr
  · cases hr with
    | some hab => exact .inr ⟨_, _, rfl, rfl, hab⟩

/-- What twin records agree on, twins see alike. -/
theorem Twin.map_record {α : Type} (h : w.Twin v) (r : RecordId) {f : Record → α}
    (hf : ∀ a b : Record, a.Twin b → f b = f a) : v.records[r]?.map f = w.records[r]?.map f := by
  obtain ⟨hw, hv⟩ | ⟨a, b, hw, hv, hab⟩ := h.record_cases r
  · rw [hw, hv]
  · rw [hw, hv, Option.map_some, Option.map_some, hf a b hab]

theorem Twin.any_record (h : w.Twin v) (r : RecordId) {p : Record → Bool}
    (hp : ∀ a b : Record, a.Twin b → p b = p a) : v.records[r]?.any p = w.records[r]?.any p := by
  obtain ⟨hw, hv⟩ | ⟨a, b, hw, hv, hab⟩ := h.record_cases r
  · rw [hw, hv]
  · rw [hw, hv, Option.any_some, Option.any_some, hp a b hab]

theorem Twin.isAlive (h : w.Twin v) (r : RecordId) : v.isAlive r = w.isAlive r :=
  h.any_record r fun _ _ hab => hab.isAlive

theorem Twin.isBorrowed (h : w.Twin v) (r : RecordId) : v.isBorrowed r = w.isBorrowed r :=
  h.any_record r fun _ _ hab => by rw [hab.borrow]

theorem Twin.isRange (h : w.Twin v) (r : RecordId) : v.isRange r = w.isRange r :=
  h.any_record r fun _ _ hab => by rw [hab.kind]; rfl

theorem Twin.rangeLength (h : w.Twin v) (o : Option RecordId) :
    v.rangeLength o = w.rangeLength o := by
  cases o with
  | none => rfl
  | some r => exact congrArg (Option.getD · 0) (h.map_record r fun _ _ hab => hab.length)

theorem Twin.open? (h : w.Twin v) (r : RecordId) (a : Access) :
    (v.open? r a).map (List.map Item.untracked) = (w.open? r a).map (List.map Item.untracked) := by
  obtain ⟨hw, hv⟩ | ⟨x, y, hw, hv, hxy⟩ := h.record_cases r
  · rw [World.open?, World.open?, hw, hv]
  · rw [World.open?, World.open?, hw, hv]
    exact hxy.open? a

theorem Twin.address? (h : w.Twin v) (r : RecordId) :
    v.records[r]?.bind Record.address? = w.records[r]?.bind Record.address? := by
  obtain ⟨hw, hv⟩ | ⟨a, b, hw, hv, hab⟩ := h.record_cases r
  · rw [hw, hv]
  · rw [hw, hv, Option.bind_some, Option.bind_some, hab.address?]

theorem Twin.owner? (h : w.Twin v) (i : Nat) : v.owner? i = w.owner? i := by
  rw [World.owner?, World.owner?, h.owners]

theorem Twin.owner (h : w.Twin v) (i : Nat) : v.owner i = w.owner i := by
  rw [World.owner, World.owner, h.owner?]

theorem Twin.scan? (h : w.Twin v) (i : Nat) :
    v.scans[i]?.map Scan.untracked = w.scans[i]?.map Scan.untracked := map_getElem? h.scans i

theorem Twin.walk? (h : w.Twin v) (i : Nat) :
    v.walks[i]?.map Walk.untracked = w.walks[i]?.map Walk.untracked := map_getElem? h.walks i

theorem Twin.soft? (h : w.Twin v) (p : SoftPlace) :
    (v.soft? p).map (Option.map Watch.untracked) =
      (w.soft? p).map (Option.map Watch.untracked) := by
  cases p with
  | soft i => exact map_getElem? h.softs i
  | scan i =>
    have hi := congrArg (Option.map Scan.array) (h.scan? i)
    simpa only [World.soft?, Option.map_map, Function.comp_def, Scan.untracked] using hi
  | node i =>
    have hi := congrArg (Option.map Walk.node) (h.walk? i)
    simpa only [World.soft?, Option.map_map, Function.comp_def, Walk.untracked] using hi
  | buckets i =>
    have hi := congrArg (Option.map fun k : Walk => k.buckets.array) (h.walk? i)
    simpa only [World.soft?, Option.map_map, Function.comp_def, Walk.untracked,
      Scan.untracked] using hi

theorem Twin.soft (h : w.Twin v) (p : SoftPlace) :
    (v.soft p).map Watch.untracked = (w.soft p).map Watch.untracked := by
  rw [World.soft, World.soft]
  obtain ⟨hw, hv⟩ | ⟨s, t, hw, hv, hst⟩ := eq_none_or_eq_some_of_map (h.soft? p)
  · rw [hw, hv]
  · rw [hw, hv]
    exact hst

theorem Twin.isLent (h : w.Twin v) (s : Source) : v.isLent s = w.isLent s := by
  rw [World.isLent, World.isLent, h.guards]

theorem Twin.guard? (h : w.Twin v) (g : Nat) : v.guard? g = w.guard? g := by
  rw [World.guard?, World.guard?, h.guards]

theorem Twin.writable? (h : w.Twin v) (g : Nat) : v.writable? g = w.writable? g := by
  rw [World.writable?, World.writable?, h.guard?]

theorem Twin.object? (h : w.Twin v) (r : RecordId) :
    (v.records[r]?.bind Record.object).map (List.map Item.untracked) =
      (w.records[r]?.bind Record.object).map (List.map Item.untracked) := by
  obtain ⟨hw, hv⟩ | ⟨a, b, hw, hv, hab⟩ := h.record_cases r
  · rw [hw, hv]
  · rw [hw, hv]
    exact hab.object

theorem Twin.element? (h : w.Twin v) (guard : Guard) (i : Nat) :
    (v.element? guard i).map Item.untracked = (w.element? guard i).map Item.untracked := by
  rw [World.element?, World.element?]
  split_ifs
  · obtain ⟨hw, hv⟩ | ⟨xs, ys, hw, hv, hxy⟩ := eq_none_or_eq_some_of_map (h.object? guard.record)
    · rw [hw, hv]
    · rw [hw, hv, Option.bind_some, Option.bind_some, ← List.getElem?_map, ← List.getElem?_map, hxy]
  · rfl

/-! ### Changes to one part -/

theorem Twin.modifyHeap (h : w.Twin v) (i : HeapId) {f g : Heap → Heap}
    (hfg : ∀ x y : Heap, y.untracked = x.untracked → (g y).untracked = (f x).untracked) :
    (w.modifyHeap i f).Twin (v.modifyHeap i g) :=
  { h with heaps := map_modify_eq h.heaps hfg i }

theorem Twin.modifyRecord (h : w.Twin v) (r : RecordId) {f g : Record → Record}
    (hfg : ∀ a b : Record, w.records[r]? = some a → v.records[r]? = some b → a.Twin b →
      (f a).Twin (g b)) :
    (w.modifyRecord r f).Twin (v.modifyRecord r g) := by
  refine { h with size := ?_, records := fun q => ?_ }
  · rw [World.modifyRecord, World.modifyRecord, Array.size_modify, Array.size_modify, h.size]
  · rw [World.modifyRecord, World.modifyRecord, Array.getElem?_modify, Array.getElem?_modify]
    split_ifs with hq
    · subst hq
      obtain ⟨hw, hv⟩ | ⟨a, b, hw, hv, hab⟩ := h.record_cases r
      · rw [hw, hv]
        exact .none
      · rw [hw, hv]
        exact .some (hfg a b hw hv hab)
    · exact h.records q

theorem Twin.setOwner (h : w.Twin v) (i : Nat) (o : Owner) :
    (w.setOwner i o).Twin (v.setOwner i o) :=
  { h with owners := by rw [World.setOwner, World.setOwner, h.owners] }

theorem Twin.setSoft (h : w.Twin v) (p : SoftPlace) {s t : Soft}
    (hst : t.map Watch.untracked = s.map Watch.untracked) :
    (w.setSoft p s).Twin (v.setSoft p t) := by
  cases p with
  | soft i => exact { h with softs := map_set_eq h.softs hst i }
  | scan i =>
    refine { h with scans := ?_ }
    simp only [World.setSoft]
    refine map_modify_eq h.scans (fun x y hxy => ?_) i
    simp only [Scan.untracked, Scan.mk.injEq] at hxy ⊢
    exact ⟨hst, hxy.2⟩
  | node i =>
    refine { h with walks := ?_ }
    simp only [World.setSoft]
    refine map_modify_eq h.walks (fun x y hxy => ?_) i
    simp only [Walk.untracked, Walk.mk.injEq] at hxy ⊢
    exact ⟨hst, hxy.2⟩
  | buckets i =>
    refine { h with walks := ?_ }
    simp only [World.setSoft]
    refine map_modify_eq h.walks (fun x y hxy => ?_) i
    simp only [Walk.untracked, Scan.untracked, Walk.mk.injEq, Scan.mk.injEq] at hxy ⊢
    exact ⟨hxy.1, hst, hxy.2.2⟩

theorem Twin.vacate (h : w.Twin v) (p : SoftPlace) : (w.vacate p).Twin (v.vacate p) := by
  cases p with
  | soft i => exact h.setSoft (.soft i) rfl
  | scan i => exact { h with scans := map_modify_eq h.scans (fun _ _ _ => rfl) i }
  | node i => exact h.setSoft (.node i) rfl
  | buckets i =>
    refine { h with walks := ?_ }
    simp only [World.vacate]
    refine map_modify_eq h.walks (fun x y hxy => ?_) i
    simp only [Walk.untracked, Walk.mk.injEq] at hxy ⊢
    exact ⟨hxy.1, trivial⟩

theorem Twin.schedule (h : w.Twin v) {ts us : List Task}
    (htu : us.map Task.untracked = ts.map Task.untracked) : (w.schedule ts).Twin (v.schedule us) :=
  { h with
    pending := by rw [World.schedule, World.schedule, List.map_append, List.map_append, htu,
      h.pending] }

theorem Twin.raise (h : w.Twin v) (p : Panic) : (w.raise p).Twin (v.raise p) := by
  rw [World.raise, World.raise, h.unwinding]
  split_ifs
  · exact h
  · exact { h with unwinding := rfl }

theorem Twin.report (h : w.Twin v) (e : Event) :
    Twin { w with log := e :: w.log } { v with log := e :: v.log } :=
  { h with log := congrArg (e :: ·) h.log }

theorem Twin.addGuard (h : w.Twin v) (guard : Guard) :
    (v.addGuard guard).1 = (w.addGuard guard).1 ∧
      (w.addGuard guard).2.Twin (v.addGuard guard).2 := by
  refine ⟨h.nextGuard, { h with guards := ?_, nextGuard := ?_ }⟩
  · simp only [World.addGuard, h.nextGuard, h.guards]
  · simp only [World.addGuard, h.nextGuard]

/-! ### Tickets and slots -/

theorem noteRegistered_eq (w : World) (r : RecordId) (t : Option Ticket) :
    ∃ hs, hs.map Heap.untracked = w.heaps.map Heap.untracked ∧
      w.noteRegistered r t = { w with heaps := hs } := by
  unfold noteRegistered
  split
  · exact ⟨w.heaps, rfl, rfl⟩
  · split_ifs
    · exact ⟨_, map_modify_self (g := Heap.noteRegistered) (fun _ => rfl) w.heaps _, rfl⟩
    · exact ⟨w.heaps, rfl, rfl⟩

theorem Twin.noteRegistered (h : w.Twin v) (r q : RecordId) (s t : Option Ticket) :
    (w.noteRegistered r s).Twin (v.noteRegistered q t) := by
  obtain ⟨hs, hhs, hw⟩ := noteRegistered_eq w r s
  obtain ⟨ks, hks, hv⟩ := noteRegistered_eq v q t
  rw [hw, hv]
  exact { h with heaps := hks.trans (h.heaps.trans hhs.symm) }

end World

namespace Record.Twin

variable {a b : Record}

theorem enrol (h : a.Twin b) : a.enrol.Twin b.enrol := by
  rw [Record.enrol, Record.enrol]
  split_ifs <;> exact { h with }

theorem deregister (h : a.Twin b) (s t : Option Ticket) :
    (a.deregister s).Twin (b.deregister t) := by
  cases s <;> cases t <;> exact { h with }

theorem acquire (h : a.Twin b) : a.acquire.Twin b.acquire :=
  { h with handles := congrArg (· + 1) h.handles }

end Record.Twin

theorem Heap.untracked_release {x y : Heap} {b c : Block} (h : y.untracked = x.untracked)
    (hbc : c.blank = b.blank) (k l : Bool) :
    (y.release c l).untracked = (x.release b k).untracked := by
  have hsize : c.size = b.size := (congrArg Block.size hbc :)
  simp only [Heap.untracked, Heap.mk.injEq, Stats.mk.injEq] at h
  obtain ⟨hconfig, -, ha, hd, hb, hy, -⟩ := h
  unfold Heap.release
  split_ifs <;>
    simp [Heap.untracked, Stats.released, Stats.kept, hsize, hconfig, ha, hd, hb, hy]

namespace World

variable {u v w : World} {r : RecordId}

/-! ### Destruction -/

theorem Twin.invalidate (h : w.Twin v) (r : RecordId) : (w.invalidate r).Twin (v.invalidate r) := by
  obtain ⟨hw, hv⟩ | ⟨a, b, hw, hv, hab⟩ := h.record_cases r
  · simpa only [World.invalidate, hw, hv] using h
  · simp only [World.invalidate, hw, hv, hab.heap]
    refine Twin.modifyHeap (h.modifyRecord r ?_) a.heap ?_
    · exact fun _ _ _ _ hcd => { hcd with }
    · exact fun _ _ hxy => hxy

theorem Twin.returnBlock (h : w.Twin v) (r : RecordId) :
    (w.returnBlock r).Twin (v.returnBlock r) := by
  obtain ⟨hw, hv⟩ | ⟨a, b, hw, hv, hab⟩ := h.record_cases r
  · simpa only [World.returnBlock, hw, hv] using h
  · obtain ⟨ha, hb⟩ | ⟨x, y, ha, hb, hxy⟩ := eq_none_or_eq_some_of_map hab.block
    · simpa only [World.returnBlock, hw, hv, ha, hb] using h
    · simp only [World.returnBlock, hw, hv, ha, hb, hab.heap]
      refine Twin.modifyHeap (h.modifyRecord r ?_) a.heap ?_
      · exact fun _ _ _ _ hcd => { hcd with block := rfl }
      · exact fun _ _ hcd => Heap.untracked_release hcd hxy _ _

theorem Twin.demolish (h : w.Twin v) (r : RecordId) : (w.demolish r).Twin (v.demolish r) := by
  obtain ⟨hw, hv⟩ | ⟨a, b, hw, hv, hab⟩ := h.record_cases r
  · simpa only [World.demolish, hw, hv] using h
  · obtain ⟨ha, hb⟩ | ⟨xs, ys, ha, hb, hxy⟩ := eq_none_or_eq_some_of_map hab.object
    · simpa only [World.demolish, hw, hv, ha, hb] using h
    · simp only [World.demolish, hw, hv, ha, hb]
      refine Twin.schedule (h.modifyRecord r ?_) ?_
      · -- the bytes left in the block may tell the tickets
        intro c d _ _ hcd
        refine { hcd with object := rfl, block := ?_ }
        simp only [Option.map_map]
        exact hcd.block
      · have hitems : (ys.map Task.dropItem).map Task.untracked =
            (xs.map Task.dropItem).map Task.untracked := by
          have := congrArg (List.map Task.dropItem) hxy
          simp only [List.map_map] at this ⊢
          exact this
        simp only [List.map_append, hitems]

theorem Twin.orphan (h : w.Twin v) (r : RecordId) : (w.orphan r).Twin (v.orphan r) := by
  rw [World.orphan, World.orphan, h.any_record r fun _ _ hab => hab.orphaned]
  split_ifs
  · exact h
  · refine Twin.invalidate (h.modifyRecord r ?_) r
    exact fun _ _ _ _ hab => { hab with orphaned := rfl }

theorem Twin.dropOwner (h : w.Twin v) (o : Owner) : (w.dropOwner o).Twin (v.dropOwner o) := by
  cases o with
  | none => exact h
  | some r =>
    have hs : (w.schedule [.forget r]).Twin (v.schedule [.forget r]) := h.schedule rfl
    simp only [World.dropOwner, hs.isBorrowed]
    split_ifs
    · exact (hs.orphan r).raise _
    · exact hs.demolish r

theorem Twin.dropSoft (h : w.Twin v) {s t : Soft}
    (hst : t.map Watch.untracked = s.map Watch.untracked) : (w.dropSoft s).Twin (v.dropSoft t) := by
  obtain ⟨rfl, rfl⟩ | ⟨k, j, rfl, rfl, hkj⟩ := eq_none_or_eq_some_of_map hst
  · exact h
  · have hr : j.record = k.record := (congrArg Watch.record hkj :)
    simp only [World.dropSoft, hr]
    exact (h.modifyRecord k.record fun _ _ _ _ hab => hab.deregister _ _).schedule rfl

theorem Twin.forget (h : w.Twin v) (r : RecordId) : (w.forget r).Twin (v.forget r) := by
  have hm := h.modifyRecord r (f := fun rec => { rec with handles := rec.handles - 1 })
    (g := fun rec => { rec with handles := rec.handles - 1 })
    fun _ _ _ _ hab => { hab with handles := congrArg (· - 1) hab.handles }
  have hlast := hm.any_record r (p := fun rec => decide (rec.handles = 0) && !rec.borrow.isHeld)
    fun _ _ hab => by rw [hab.handles, hab.borrow]
  simp only [World.forget, hlast]
  split_ifs
  · exact hm.demolish r
  · exact hm

/-! ### What handles see -/

/-- Liveness is known from the record; in a tracked world the ticket says the same. -/
theorem Twin.watched (h : w.Twin v) (hw : w.Sound) (hv : v.Sound) {j k : Watch}
    (hk : .watches k ∈ w.stakes) (hj : .watches j ∈ v.stakes) (hjk : j.record = k.record) :
    v.watched (some j) = w.watched (some k) := by
  have ha := h.isAlive k.record
  cases hwa : w.isAlive k.record with
  | false => rw [watched_of_dead hwa, watched_of_dead (by rw [hjk, ha, hwa])]
  | true => rw [hw.watched_of_alive hk hwa, hv.watched_of_alive hj (by rw [hjk, ha, hwa]), hjk]

theorem Twin.peekNumber (h : w.Twin v) {s t : Soft} (hst : v.watched t = w.watched s) :
    v.peekNumber t = w.peekNumber s := by
  simp only [World.peekNumber, hst]
  cases w.watched s with
  | error e => rfl
  | ok r =>
    obtain ⟨e, hx, hy⟩ | ⟨xs, ys, hx, hy, hxy⟩ := eq_error_or_eq_ok_of_map (h.open? r .shared)
    · simp only [bind, Except.bind, hx, hy]
    · simp only [bind, Except.bind, hx, hy]
      cases xs <;> cases ys
      · rfl
      · cases hxy
      · cases hxy
      · exact congrArg Except.ok (value_eq (List.cons.inj hxy).1)

/-- A handle keeps the record in use. -/
theorem Sound.handles_ne_zero (h : w.Sound) {k : Watch} {rec : Record} (hk : .watches k ∈ w.stakes)
    (hr : w.records[k.record]? = some rec) : rec.handles ≠ 0 := by
  have hmem : .watches k ∈ w.stakesIn k.record := mem_stakesIn.mpr ⟨hk, rfl⟩
  obtain ⟨c, hc⟩ := Multiset.exists_cons_of_mem hmem
  rw [(h.agrees hr).counted, hc, handles_watches]
  exact Nat.succ_ne_zero _

theorem exists_ticket {rec : Record} (hr : w.records[r]? = some rec) (hn : rec.handles ≠ 0)
    (h : w.refusal? r = none) : ∃ t, rec.nextTicket = .ok t := by
  cases ht : rec.nextTicket with
  | error e => simp [refusal?, hr, hn, ht] at h
  | ok t => exact ⟨t, rfl⟩

theorem Twin.copyBriefly (h : w.Twin v) {s t : Soft}
    (hst : t.map Watch.untracked = s.map Watch.untracked)
    (hs : ∀ k rec, s = some k → w.records[k.record]? = some rec → ∃ n, rec.nextTicket = .ok n) :
    (w.copyBriefly s).2.Twin (v.copyBriefly t).2 := by
  obtain ⟨rfl, rfl⟩ | ⟨k, j, rfl, rfl, hkj⟩ := eq_none_or_eq_some_of_map hst
  · exact h
  · have hr : j.record = k.record := (congrArg Watch.record hkj :)
    obtain ⟨hw, hv⟩ | ⟨a, b, hw, hv, hab⟩ := h.record_cases k.record
    · simpa only [World.copyBriefly, hr, hw, hv] using h
    · obtain ⟨n, hn⟩ := hs k a rfl hw
      simp only [World.copyBriefly, hr, hw, hv, hn, hab.nextTicket]
      refine Twin.noteRegistered
        (Twin.modifyRecord (h.modifyRecord k.record ?_) k.record ?_) _ _ _ _
      · exact fun _ _ _ _ hcd => hcd.enrol
      · exact fun _ _ _ _ hcd => hcd.deregister _ _

/-! ### Finalizers -/

section Finalizers

variable {value : Int64} {f : Finalizer} {next : Owner} {k : Watch} {s t : Soft}
  {rest todo : List Task}

/-- The world in which the finalizer of a node looks around. -/
def finalizing (w : World) (value : Int64) (rest : List Task) : World :=
  { w with pending := rest, log := .dropped value :: w.log }

theorem watches_of_pending (hp : w.pending = .dropItem (.node value f next (some k)) :: rest) :
    .watches k ∈ w.stakes := by
  rw [stakes_pop hp]
  simp [ofTask, ofItem, Item.back]

theorem refusal?_of_tick (hp : w.pending = .dropItem (.node value f next (some k)) :: rest)
    (hf : f.probes = true) (hd : w.denial .tick = none) : w.refusal? k.record = none := by
  simpa only [denial, asks, hp, hf, if_true, Option.bind_some] using hd

/-- A finalizer's copy is made unless it is refused, and the handle stays as good as it was. -/
theorem Sound.copied (h : w.Sound)
    (hp : w.pending = .dropItem (.node value f next (some k)) :: rest) (hf : f.probes = true)
    (hd : w.denial .tick = none) :
    ((w.finalizing value rest).copyBriefly (some k)).1 = some (false, w.isAlive k.record) ∧
      ((w.finalizing value rest).copyBriefly (some k)).2.isValid (some k) = w.isAlive k.record := by
  have hlog : w.tick.log = .probed value ((w.finalizing value rest).peekNumber (some k))
      (((w.finalizing value rest).copyBriefly (some k)).2.isValid (some k))
      ((w.finalizing value rest).copyBriefly (some k)).1 ::
        ((w.finalizing value rest).copyBriefly (some k)).2.log := by
    simp only [tick, hp, perform, dropItem, finalize, hf, if_true]
    split_ifs
    · exact log_raise _
    · rfl
  obtain ⟨seen, copy, before, hprobed, -⟩ := h.probed hp hf
  have hvalid := (List.cons.inj (hlog.symm.trans hprobed)).1
  simp only [Event.probed.injEq] at hvalid
  have hcopy := h.copyBriefly_fst (v := w.finalizing value rest) rfl k
  refine ⟨hcopy.resolve_left fun hnone => ?_, hvalid.2.2.1⟩
  obtain ⟨rec, hr⟩ := h.record_of_mem (watches_of_pending hp) rfl
  have hr : w.records[k.record]? = some rec := hr
  obtain ⟨n, hn⟩ := exists_ticket hr (h.handles_ne_zero (watches_of_pending hp) hr)
    (refusal?_of_tick hp hf hd)
  have hrf : (w.finalizing value rest).records[k.record]? = some rec := hr
  simp [World.copyBriefly, hrf, hn] at hnone

theorem Twin.finalizing (h : w.Twin v) (value : Int64)
    (hrt : todo.map Task.untracked = rest.map Task.untracked) :
    (w.finalizing value rest).Twin (v.finalizing value todo) :=
  Twin.report (w := { w with pending := rest }) (v := { v with pending := todo })
    { h with pending := hrt } (.dropped value)

/-- What a finalizer that looks around leaves. -/
def looked (w : World) (value : Int64) (prev : Soft) : World :=
  let r := w.copyBriefly prev
  { r.2 with log := .probed value (w.peekNumber prev) (r.2.isValid prev) r.1 :: r.2.log }

theorem finalize_pending (w : World) (value : Int64) (f : Finalizer) (prev : Soft)
    (rest : List Task) : { w with pending := rest }.finalize value f prev =
      let u :=
        if f.probes then (w.finalizing value rest).looked value prev
        else w.finalizing value rest
      if f.panics then u.raise (.finalizer value.toInt) else u := rfl

theorem Twin.looked (h : w.Twin v) (hw : w.Sound) (hv : v.Sound)
    (hp : w.pending = .dropItem (.node value f next s) :: rest)
    (hq : v.pending = .dropItem (.node value f next t) :: todo)
    (hst : t.map Watch.untracked = s.map Watch.untracked)
    (hrt : todo.map Task.untracked = rest.map Task.untracked) (hf : f.probes = true)
    (hd : w.denial .tick = none) (he : v.denial .tick = none) :
    ((w.finalizing value rest).looked value s).Twin ((v.finalizing value todo).looked value t) := by
  have hfin := h.finalizing value hrt
  obtain ⟨rfl, rfl⟩ | ⟨k, j, rfl, rfl, hkj⟩ := eq_none_or_eq_some_of_map hst
  · exact hfin.report _
  · have hr : j.record = k.record := (congrArg Watch.record hkj :)
    have hk := watches_of_pending hp
    obtain ⟨hwcopy, hwvalid⟩ := hw.copied hp hf hd
    obtain ⟨hvcopy, hvvalid⟩ := hv.copied hq hf he
    have hseen : (v.finalizing value todo).peekNumber (some j) =
        (w.finalizing value rest).peekNumber (some k) :=
      hfin.peekNumber (h.watched hw hv hk (watches_of_pending hq) hr)
    have hcopied := hfin.copyBriefly hst fun l rec hl hrec => by
      cases hl
      exact exists_ticket (w := w) hrec (hw.handles_ne_zero hk hrec) (refusal?_of_tick hp hf hd)
    have hevent : Event.probed value ((v.finalizing value todo).peekNumber (some j))
          (((v.finalizing value todo).copyBriefly (some j)).2.isValid (some j))
          ((v.finalizing value todo).copyBriefly (some j)).1 =
        .probed value ((w.finalizing value rest).peekNumber (some k))
          (((w.finalizing value rest).copyBriefly (some k)).2.isValid (some k))
          ((w.finalizing value rest).copyBriefly (some k)).1 := by
      rw [hseen, hvvalid, hvcopy, hwvalid, hwcopy, hr, h.isAlive]
    have hreported :=
      hcopied.report (Event.probed value ((w.finalizing value rest).peekNumber (some k))
      (((w.finalizing value rest).copyBriefly (some k)).2.isValid (some k))
      ((w.finalizing value rest).copyBriefly (some k)).1)
    simp only [World.looked, hevent]
    exact hreported

/-- The handle in a node that is destroyed is the same in both worlds, but for its ticket. -/
theorem Twin.finalize (h : w.Twin v) (hw : w.Sound) (hv : v.Sound)
    (hp : w.pending = .dropItem (.node value f next s) :: rest)
    (hq : v.pending = .dropItem (.node value f next t) :: todo)
    (hst : t.map Watch.untracked = s.map Watch.untracked)
    (hrt : todo.map Task.untracked = rest.map Task.untracked)
    (hd : w.denial .tick = none) (he : v.denial .tick = none) :
    Twin ({ w with pending := rest }.finalize value f s)
      ({ v with pending := todo }.finalize value f t) := by
  have hlooked : Twin
      (if f.probes then (w.finalizing value rest).looked value s else w.finalizing value rest)
      (if f.probes then (v.finalizing value todo).looked value t else v.finalizing value todo) := by
    split_ifs with hf
    · exact h.looked hw hv hp hq hst hrt hf hd he
    · exact h.finalizing value hrt
  rw [finalize_pending, finalize_pending]
  by_cases hpanics : f.panics = true
  · simp only [hpanics, if_true]
    exact hlooked.raise _
  · simp only [hpanics]
    exact hlooked

/-- What an element leads to is the same in both worlds, but for tickets: so is what its
destruction does and what it leaves to do. -/
theorem Twin.dropItem (h : w.Twin v) (hw : w.Sound) (hv : v.Sound) {i j : Item}
    (hp : w.pending = .dropItem i :: rest) (hq : v.pending = .dropItem j :: todo)
    (hij : j.untracked = i.untracked) (hrt : todo.map Task.untracked = rest.map Task.untracked)
    (hd : w.denial .tick = none) (he : v.denial .tick = none) :
    Twin ({ w with pending := rest }.dropItem i) ({ v with pending := todo }.dropItem j) := by
  have hpop : Twin { w with pending := rest } { v with pending := todo } :=
    { h with pending := hrt }
  cases i with
  | node value f next s =>
    cases j <;> simp only [Item.untracked, Item.node.injEq, reduceCtorEq] at hij
    obtain ⟨rfl, rfl, rfl, hst⟩ := hij
    refine Twin.schedule (h.finalize hw hv hp hq hst hrt hd he) ?_
    simp only [List.map_cons, List.map_nil, Task.untracked, hst]
  | bucket head =>
    cases j <;> simp only [Item.untracked, Item.bucket.injEq, reduceCtorEq] at hij
    subst hij
    exact hpop.schedule rfl
  | entry key next =>
    cases j <;> simp only [Item.untracked, Item.entry.injEq, reduceCtorEq] at hij
    obtain ⟨rfl, rfl⟩ := hij
    exact (hpop.report (.dropped _)).schedule rfl
  | _ =>
    cases j <;> simp only [Item.untracked, reduceCtorEq] at hij
    exact hpop

end Finalizers

/-- Twins do the same task next. -/
theorem Twin.tick (h : w.Twin v) (hw : w.Sound) (hv : v.Sound) (hd : w.denial .tick = none)
    (he : v.denial .tick = none) : w.tick.Twin v.tick := by
  have hpending := h.pending
  cases hp : w.pending with
  | nil =>
    rw [hp, List.map_nil, List.map_eq_nil_iff] at hpending
    simpa only [World.tick, hp, hpending] using h
  | cons t rest =>
    rw [hp, List.map_cons] at hpending
    obtain ⟨x, todo, hq, hx, hrest⟩ := List.map_eq_cons_iff.mp hpending
    have hpop : Twin { w with pending := rest } { v with pending := todo } :=
      { h with pending := hrest }
    simp only [World.tick, hp, hq]
    cases t with
    | dropOwner o =>
      cases x <;> cases hx
      exact hpop.dropOwner o
    | dropSoft s =>
      cases x <;> simp only [Task.untracked, Task.dropSoft.injEq, reduceCtorEq] at hx
      exact hpop.dropSoft hx
    | dropItem i =>
      cases x <;> simp only [Task.untracked, Task.dropItem.injEq, reduceCtorEq] at hx
      exact h.dropItem hw hv hp hq hx hrest hd he
    | retire r =>
      cases x <;> cases hx
      exact (hpop.invalidate r).returnBlock r
    | forget r =>
      cases x <;> cases hx
      exact hpop.forget r
    | abandon i b =>
      cases x <;> cases hx
      exact hpop.modifyHeap i fun _ _ hxy => Heap.untracked_release hxy rfl _ _

end World

end Custody
