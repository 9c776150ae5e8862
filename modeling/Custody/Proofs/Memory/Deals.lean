import Custody.Proofs.Memory.Stills

/-! What an action does to heaps. A heap grants a block, takes one back, or is asked for
something that moves no block; every action is a few such deals one after the other, and
moves one block at most. What deals keep is therefore kept by all runs. -/

namespace Custody

open Relation

/-- Whether the heap that is to grant a block exists, and a raw block that goes back goes to
the heap that it came from. -/
def Action.isTidy (w : World) : Action → Bool
  | .allot h .. | .construct h .. => h < w.heaps.size
  | .giveBack b h => (w.loose? b).all fun l => l.heap = h
  | _ => true

namespace World

/-- One deal with the heaps. In a tidy one, the heap that grants a block exists, and the
block goes back to that heap. -/
inductive Deal (tidy : Prop) (w v : World) : Prop where
  | rest : v.heaps = w.heaps → v.charges = w.charges → v.arena = w.arena → Deal tidy w v
  | openHeap (c : Config) : v.heaps = w.heaps.push (.fresh c) → v.charges = w.charges →
    v.arena = w.arena → Deal tidy w v
  | note (h : HeapId) (r : Heap.Request) : r.IsNote → v.heaps = w.heaps.modify h (·.obey r) →
    v.charges = w.charges → v.arena = w.arena → Deal tidy w v
  /-- Heap `h` takes back a block that was granted by heap `owner`. -/
  | settle (owner h : HeapId) (b : Block) (keep : Bool) : (tidy → owner = h) →
    v.heaps = w.heaps.modify h (·.obey (.release b keep)) →
    w.charges = {⟨owner, b.extent⟩} + v.charges → v.arena = w.arena → Deal tidy w v
  | grant (h : HeapId) (b : Block) (payload : Layout) (n : Nat) : (tidy → h < w.heaps.size) →
    w.arena.allocate payload n = .ok (b, v.arena) →
    v.heaps = w.heaps.modify h (·.obey (.allocated b)) →
    v.charges = {⟨h, b.extent⟩} + w.charges → Deal tidy w v

def Deals (tidy : Prop) : World → World → Prop := ReflTransGen (Deal tidy)

variable {tidy : Prop} {u v w : World} {h : HeapId} {b : Block} {keep : Bool}

theorem Deal.once (h : Deal tidy w v) : Deals tidy w v := ReflTransGen.single h

theorem Deals.trans (h : Deals tidy u v) (k : Deals tidy v w) : Deals tidy u w :=
  ReflTransGen.trans h k

theorem Deal.mono {tidy' : Prop} (ht : tidy' → tidy) (hd : Deal tidy w v) : Deal tidy' w v := by
  cases hd with
  | rest hh hc ha => exact .rest hh hc ha
  | openHeap c hh hc ha => exact .openHeap c hh hc ha
  | note h r hr hh hc ha => exact .note h r hr hh hc ha
  | settle owner h b keep hown hh hc ha => exact .settle owner h b keep (hown ∘ ht) hh hc ha
  | grant h b payload n hknown ha hh hc => exact .grant h b payload n (hknown ∘ ht) ha hh hc

theorem Deals.mono {tidy' : Prop} (ht : tidy' → tidy) (hd : Deals tidy w v) : Deals tidy' w v := by
  induction hd with
  | refl => exact ReflTransGen.refl
  | tail _ hd ih => exact ih.tail (hd.mono ht)

theorem Stills.deals (h : Stills w v) : Deals tidy w v := by
  induction h with
  | refl => exact ReflTransGen.refl
  | tail _ hd ih =>
    apply ReflTransGen.tail ih
    cases hd with
    | rest hh hc ha => exact .rest hh hc ha
    | note k r hr hh hc ha => exact .note k r hr.isNote hh hc ha

/-! ### Blocks that move -/

/-- A block comes back to a heap. -/
structure TakesBack (tidy : Prop) (w : World) (h : HeapId) (b : Block) (keep : Bool) (v : World) :
    Prop where
  heaps : v.heaps = w.heaps.modify h (·.obey (.release b keep))
  charges : ∃ owner, (tidy → owner = h) ∧ w.charges = {⟨owner, b.extent⟩} + v.charges
  arena : v.arena = w.arena

/-- A heap grants a block. -/
structure Grants (tidy : Prop) (w : World) (h : HeapId) (b : Block) (v : World) : Prop where
  known : tidy → h < w.heaps.size
  arena : ∃ payload n, w.arena.allocate payload n = .ok (b, v.arena)
  heaps : v.heaps = w.heaps.modify h (·.obey (.allocated b))
  charges : v.charges = {⟨h, b.extent⟩} + w.charges

theorem TakesBack.deal (hs : TakesBack tidy w h b keep v) : Deal tidy w v := by
  obtain ⟨owner, hown, hc⟩ := hs.charges
  exact .settle owner h b keep hown hs.heaps hc hs.arena

theorem Grants.deal (hg : Grants tidy w h b v) : Deal tidy w v := by
  obtain ⟨payload, n, ha⟩ := hg.arena
  exact .grant h b payload n hg.known ha hg.heaps hg.charges

/-- What the end of a destruction asks of a heap. -/
def release? (w : World) (r : RecordId) : Option (HeapId × Heap.Request) :=
  w.records[r]?.bind fun rec =>
    rec.block.map fun b => (rec.heap, .release b rec.kind.mode.isTracked)

/-- What an action asks of a heap that moves a block: the block that it is granted, or the
block that goes back, and whether it is to be kept. -/
def movement (w : World) : Action → Option (HeapId × Heap.Request)
  | .allot h payload n =>
    match w.allocate h payload n with
    | .ok (b, _) => some (h, .allocated b)
    | .error _ => none
  | .construct h k p =>
    match k.layout p.count.toNat with
    | none => none
    | some payload =>
      match w.allocate h payload (k.recorded p.count.toNat) with
      | .ok (b, _) => some (h, .allocated b)
      | .error _ => none
  | .giveBack b h => (w.loose? b).map fun l => (h, .release l.block true)
  | .tick =>
    match w.pending with
    | .retire r :: _ => w.release? r
    | .abandon h b :: _ => some (h, .release b false)
    | _ => none
  | _ => none

/-- One action: nothing moves, or one block does, after some notes. -/
inductive Moves (tidy : Prop) (w v : World) : Option (HeapId × Heap.Request) → Prop where
  | still : Stills w v → Moves tidy w v none
  | openHeap (c : Config) : v.heaps = w.heaps.push (.fresh c) → v.charges = w.charges →
    v.arena = w.arena → Moves tidy w v none
  | settle {u : World} {h : HeapId} {b : Block} {keep : Bool} : Stills w u →
    TakesBack tidy u h b keep v → Moves tidy w v (some (h, .release b keep))
  | grant {u : World} {h : HeapId} {b : Block} : Stills w u → Grants tidy u h b v →
    Moves tidy w v (some (h, .allocated b))

variable {m : Option (HeapId × Heap.Request)}

theorem Moves.deals (h : Moves tidy w v m) : Deals tidy w v := by
  cases h with
  | still hs => exact hs.deals
  | openHeap c hh hc ha => exact Deal.once (.openHeap c hh hc ha)
  | settle hs hb => exact hs.deals.trans hb.deal.once
  | grant hs hb => exact hs.deals.trans hb.deal.once

/-- A block that its record gives up goes back to its heap. -/
theorem takesBack_returnBlock {r : RecordId} {rec : Record} (hr : w.records[r]? = some rec)
    (hb : rec.block = some b) :
    TakesBack tidy w rec.heap b rec.kind.mode.isTracked (w.returnBlock r) where
  heaps := by
    simp only [returnBlock, hr, hb]
    rfl
  charges := by
    refine ⟨rec.heap, fun _ => rfl, ?_⟩
    have hm := tally_modify (f := Charge.ofRecord) (l := w.records.toList) (by simpa using hr)
      fun rec => { rec with block := none }
    simp only [Charge.ofRecord, Extent.ofRecord, Extent.ofBlock?, hb, Multiset.map_zero, add_zero,
      Multiset.map_singleton] at hm
    simp only [returnBlock, hr, hb, charges, modifyHeap, modifyRecord, Array.toList_modify, ← hm]
    ac_rfl
  arena := by
    simp only [returnBlock, hr, hb]
    rfl

/-- The observers learn it first, then the block goes back. -/
theorem moves_retire {r : RecordId} (hu : Stills w u) (hr : u.release? r = m) :
    Moves tidy w ((u.invalidate r).returnBlock r) m := by
  subst hr
  have hw := hu.trans (stills_invalidate r)
  cases hr : u.records[r]? with
  | none =>
    simp only [release?, invalidate, hr, returnBlock]
    exact .still hu
  | some rec =>
    have hrec := (replaces_invalidate hr).self
    cases hb : rec.block with
    | none =>
      have hsame : (u.invalidate r).returnBlock r = u.invalidate r := by
        simp only [returnBlock, hrec, hb]
      rw [hsame, release?, hr, Option.bind_some, hb]
      exact .still hw
    | some b =>
      rw [release?, hr, Option.bind_some, hb]
      have hs := @takesBack_returnBlock tidy _ b r _ hrec hb
      exact .settle hw hs

theorem moves_tick : Moves tidy w w.tick (w.movement .tick) := by
  cases hp : w.pending with
  | nil =>
    simp only [tick, movement, hp]
    exact .still (.refl w)
  | cons t rest =>
    simp only [tick, movement, hp]
    cases t with
    | retire r => exact moves_retire (stills_pop hp rfl) rfl
    | abandon h b =>
      exact .settle (.refl w) ⟨rfl, ⟨h, fun _ => rfl, charges_pop hp⟩, rfl⟩
    | dropOwner | dropSoft | dropItem | forget =>
      exact .still ((stills_pop hp rfl).trans (stills_perform (by simp) (by simp)))

theorem takesBack_giveBack {i : Nat} {l : Loose} (hl : w.loose? i = some l)
    (ht : tidy → l.heap = h) : TakesBack tidy w h l.block true (w.giveBack i h) where
  heaps := by
    simp only [giveBack, hl]
    rfl
  charges := by
    have hi : w.blocks[i]? = some (some l) := by
      unfold loose? at hl
      cases hi : w.blocks[i]? with
      | none => simp [hi] at hl
      | some o => simpa [hi] using hl
    have hset := tally_set (f := Charge.ofLoose) (l := w.blocks.toList) (by simpa using hi) none
    refine ⟨l.heap, ht, ?_⟩
    simp only [Charge.ofLoose, add_zero] at hset
    simp only [giveBack, hl, charges, modifyHeap, Array.toList_setIfInBounds, ← hset]
    ac_rfl
  arena := by
    simp only [giveBack, hl]
    rfl

/-- A block that was granted is put somewhere, once. -/
theorem grants_of_allocate {payload : Layout} {n : Nat} (ht : tidy → h < w.heaps.size)
    (hv : w.allocate h payload n = .ok (b, v)) (hh : u.heaps = v.heaps) (ha : u.arena = v.arena)
    (hu : u.charges = {⟨h, b.extent⟩} + v.charges) : Grants tidy w h b u := by
  obtain ⟨arena, harena, rfl⟩ := allocate_eq_ok hv
  exact ⟨ht, ⟨payload, n, by rw [harena, ha]; rfl⟩, hh, hu⟩

theorem Grants.raise (hg : Grants tidy w h b u) (p : Panic) : Grants tidy w h b (u.raise p) := by
  unfold World.raise
  split_ifs
  · exact hg
  · exact ⟨hg.known, hg.arena, hg.heaps, hg.charges⟩

/-- The block of a new object is in its record; if building the object gives up, it is in
the task that will abandon it. -/
theorem moves_construct (h : HeapId) (k : Kind) (p : Plan) (ht : tidy → h < w.heaps.size) :
    Moves tidy w (w.construct h k p).2 (w.movement (.construct h k p)) := by
  simp only [construct_eq, movement]
  cases k.layout p.count.toNat with
  | none => exact .still (.refl w)
  | some payload =>
    dsimp only
    cases hv : w.allocate h payload (k.recorded p.count.toNat) with
    | error e => exact .still (.refl w)
    | ok bv =>
      obtain ⟨b, v⟩ := bv
      dsimp only
      cases p.stop? with
      | some n =>
        dsimp only
        have hitems : tally Charge.ofTask ((p.items n).map Task.dropItem) = 0 := by
          rw [tally_map]
          exact tally_eq_zero fun _ _ => rfl
        apply Moves.grant (.refl w)
        apply Grants.raise
        refine grants_of_allocate ht hv rfl rfl ?_
        simp only [charges, schedule, tally_append, hitems, tally_cons, tally_nil, Charge.ofTask]
        ac_rfl
      | none =>
        apply Moves.grant (.refl w)
        refine grants_of_allocate ht hv rfl rfl ?_
        simp only [charges, Array.toList_push, tally_append, tally_cons, tally_nil, Charge.ofRecord,
          Extent.ofRecord, newRecord, Extent.ofBlock?]
        ac_rfl

theorem moves_allot (h : HeapId) (payload : Layout) (n : Nat) (ht : tidy → h < w.heaps.size) :
    Moves tidy w (w.allot h payload n).2 (w.movement (.allot h payload n)) := by
  simp only [allot, movement]
  cases hv : w.allocate h payload n with
  | error e => exact .still (.refl w)
  | ok bv =>
    obtain ⟨b, v⟩ := bv
    apply Moves.grant (.refl w)
    refine grants_of_allocate ht hv rfl rfl ?_
    simp only [charges, Array.toList_push, tally_append, tally_cons, tally_nil, Charge.ofLoose]
    ac_rfl

theorem moves_giveBack (i : Nat) (h : HeapId) (ht : tidy → ∀ l, w.loose? i = some l → l.heap = h) :
    Moves tidy w (w.giveBack i h) (w.movement (.giveBack i h)) := by
  cases hl : w.loose? i with
  | none =>
    simp only [giveBack, movement, hl]
    exact .still (.refl w)
  | some l =>
    simp only [movement, hl, Option.map_some]
    exact .settle (.refl w) (takesBack_giveBack hl fun hd => ht hd l hl)

theorem moves_openHeap (c : Config) : Moves tidy w (w.openHeap c).2 none := by
  unfold openHeap
  split
  · exact .still (.refl w)
  · rename_i heap hopen
    unfold Heap.open? at hopen
    cases hc : c.check with
    | error e => simp [hc, bind, Except.bind] at hopen
    | ok _ =>
      obtain rfl : Heap.fresh c = heap := by
        simpa [hc, bind, Except.bind, pure, Except.pure] using hopen
      exact .openHeap c rfl rfl rfl

/-- Every action empties a quarantine, or moves one block at most; a tidy one does so
tidily. -/
theorem moves_run (a : Action) :
    (∃ h, a = .reclaim h) ∨ Moves (a.isTidy w = true) w (a.run w) (w.movement a) := by
  cases a with
  | reclaim h => exact .inl ⟨h, rfl⟩
  | allot h l n => exact .inr (moves_allot h l n of_decide_eq_true)
  | construct h k p => exact .inr (moves_construct h k p of_decide_eq_true)
  | giveBack b h =>
    refine .inr (moves_giveBack b h fun ht l hl => ?_)
    simpa [Action.isTidy, hl] using ht
  | openHeap c => exact .inr (moves_openHeap c)
  | tick => exact .inr moves_tick
  | _ => exact .inr (.still (stills_run trivial))

theorem moves_of_movement {a : Action} {q : HeapId × Heap.Request} (hm : w.movement a = some q) :
    Moves (a.isTidy w = true) w (a.run w) (some q) := by
  obtain ⟨h, rfl⟩ | hmoves := moves_run (w := w) a
  · cases hm
  · exact hm ▸ hmoves

/-- Every action is a few deals; they are tidy if the action is. -/
theorem deals_run (a : Action) : Deals (a.isTidy w = true) w (a.run w) := by
  obtain ⟨h, rfl⟩ | hmoves := moves_run (w := w) a
  · exact Deal.once (.note h .reclaim trivial rfl rfl rfl)
  · exact hmoves.deals

/-! ### Configurations -/

theorem Deal.config (hd : Deal tidy w v) {heap : Heap} (hh : w.heaps[h]? = some heap) :
    ∃ new, v.heaps[h]? = some new ∧ new.config = heap.config := by
  have hmodify (k : HeapId) (r : Heap.Request) (hv : v.heaps = w.heaps.modify k (·.obey r)) :
      ∃ new, v.heaps[h]? = some new ∧ new.config = heap.config := by
    rw [hv, Array.getElem?_modify, hh]
    split_ifs
    · exact ⟨_, rfl, Heap.config_obey r⟩
    · exact ⟨heap, rfl, rfl⟩
  cases hd with
  | rest hv => exact ⟨heap, hv ▸ hh, rfl⟩
  | openHeap c hv =>
    have hlt : h < w.heaps.size := (Array.getElem?_eq_some_iff.mp hh).1
    exact ⟨heap, by rw [hv, Array.getElem?_push_lt hlt, ← Array.getElem?_eq_getElem hlt, hh], rfl⟩
  | note k r _ hv => exact hmodify k r hv
  | settle _ k b keep _ hv => exact hmodify k _ hv
  | grant k b _ _ _ _ hv => exact hmodify k _ hv

theorem Deals.config (hd : Deals tidy w v) {heap : Heap} (hh : w.heaps[h]? = some heap) :
    ∃ new, v.heaps[h]? = some new ∧ new.config = heap.config := by
  induction hd with
  | refl => exact ⟨heap, hh, rfl⟩
  | tail _ hd ih =>
    obtain ⟨mid, hmid, hconfig⟩ := ih
    obtain ⟨new, hnew, hkept⟩ := hd.config hmid
    exact ⟨new, hnew, hkept.trans hconfig⟩

/-- A heap keeps its configuration for good. -/
theorem Reaches.config (hv : w.Reaches v) {heap : Heap} (hh : w.heaps[h]? = some heap) :
    ∃ new, v.heaps[h]? = some new ∧ new.config = heap.config := by
  induction hv with
  | refl => exact ⟨heap, hh, rfl⟩
  | step a _ ih =>
    obtain ⟨mid, hmid, hconfig⟩ := ih
    obtain ⟨new, hnew, hkept⟩ := (deals_run a).config hmid
    exact ⟨new, hnew, hkept.trans hconfig⟩

end World

end Custody
