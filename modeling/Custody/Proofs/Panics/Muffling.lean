import Custody.Proofs.Quiescence

/-! Worlds without panics. A muffled world is the same world in which no finalizer gives up and no
panic unwinds. Whether a finalizer gives up is stored in a low bit of its node, so the bytes that a
destroyed object leaves behind lose their low bits; everything else stays. -/

namespace Custody

/-! ### What is muffled -/

/-- The finalizer that does the same but does not give up. -/
def Finalizer.muffled (f : Finalizer) : Finalizer := ⟨f.bits / 2 * 2⟩

def Item.muffled : Item → Item
  | .node v f next prev => .node v f.muffled next prev
  | i => i

/-- A byte without its low bit. -/
def evened (b : UInt8) : UInt8 := b / 2 * 2

def Contents.muffled : Contents → Contents
  | .bytes bs => .bytes (bs.map (Option.map evened))
  | c => c

def Block.muffled (b : Block) : Block := { b with contents := b.contents.muffled }

def Record.muffled (rec : Record) : Record :=
  { rec with
    block := rec.block.map Block.muffled
    object := rec.object.map (List.map Item.muffled) }

def Heap.muffled (h : Heap) : Heap :=
  { h with quarantine := { h.quarantine with blocks := h.quarantine.blocks.map Block.muffled } }

def Task.muffled : Task → Task
  | .dropItem i => .dropItem i.muffled
  | t => t

def World.muffled (w : World) : World :=
  { w with
    heaps := w.heaps.map Heap.muffled
    records := w.records.map Record.muffled
    pending := w.pending.map Task.muffled
    unwinding := none }

/-! ### Bytes -/

theorem toNat_evened (b : UInt8) : (evened b).toNat = b.toNat / 2 * 2 := by
  have hb := b.toNat_lt
  have htwo : (2 : UInt8).toNat = 2 := rfl
  rw [evened, UInt8.toNat_mul, UInt8.toNat_div, htwo]
  omega

@[simp] theorem evened_evened (b : UInt8) : evened (evened b) = evened b := by
  refine UInt8.toNat_inj.mp ?_
  rw [toNat_evened, toNat_evened]
  omega

/-- The low bit of a number is the low bit of its first byte. -/
theorem evened_littleEndian (width n : Nat) :
    (littleEndian width (n / 2 * 2)).map evened = (littleEndian width n).map evened := by
  cases width with
  | zero => rfl
  | succ width =>
    have hfirst : evened (UInt8.ofNat (n / 2 * 2)) = evened (UInt8.ofNat n) := by
      refine UInt8.toNat_inj.mp ?_
      rw [toNat_evened, toNat_evened, UInt8.toNat_ofNat', UInt8.toNat_ofNat']
      omega
    have hrest : n / 2 * 2 / 256 = n / 256 := by omega
    rw [littleEndian, littleEndian, List.map_cons, List.map_cons, hfirst, hrest]

theorem evened_numeral (width n : Nat) :
    (Item.numeral width (n / 2 * 2)).map (Option.map evened) =
      (Item.numeral width n).map (Option.map evened) := by
  have h := congrArg (List.map some) (evened_littleEndian width n)
  simpa only [Item.numeral, List.map_map, Function.comp_def, Option.map_some] using h

/-! ### Items -/

namespace Finalizer

variable (f : Finalizer)

@[simp] theorem panics_muffled : f.muffled.panics = false := by
  simp [panics, muffled]

@[simp] theorem probes_muffled : f.muffled.probes = f.probes := by
  simp [probes, muffled]

@[simp] theorem muffled_muffled : f.muffled.muffled = f.muffled := by
  simp [muffled]

end Finalizer

namespace Item

variable (i : Item)

@[simp] theorem muffled_muffled : i.muffled.muffled = i.muffled := by
  cases i <;> simp [muffled]

@[simp] theorem value_muffled : i.muffled.value = i.value := by cases i <;> rfl

@[simp] theorem link_muffled : i.muffled.link = i.link := by cases i <;> rfl

@[simp] theorem hasLink_muffled : i.muffled.hasLink = i.hasLink := by cases i <;> rfl

@[simp] theorem muffled_withLink (o : Owner) : (i.withLink o).muffled = i.muffled.withLink o := by
  cases i <;> rfl

theorem bytes_muffled :
    i.muffled.bytes.map (Option.map evened) = i.bytes.map (Option.map evened) := by
  cases i with
  | node value f next prev =>
    simp only [muffled, bytes, Finalizer.muffled, List.map_append, evened_numeral]
  | unit | int | byte | bucket | entry => rfl

/-- Muffled or not, items leave the same bytes behind. -/
theorem muffled_image (items : List Item) :
    (image (items.map muffled)).muffled = (image items).muffled := by
  simp [image, Contents.muffled, List.map_flatMap, List.flatMap_map, bytes_muffled]

end Item

/-! ### Blocks and heaps -/

@[simp] theorem Contents.muffled_muffled (c : Contents) : c.muffled.muffled = c.muffled := by
  cases c <;> simp [muffled, Function.comp_def]

@[simp] theorem Block.muffled_muffled (b : Block) : b.muffled.muffled = b.muffled := by
  simp [muffled]

@[simp] theorem Heap.muffled_muffled (h : Heap) : h.muffled.muffled = h.muffled := by
  simp [muffled, Function.comp_def]

theorem Heap.muffled_prepare (h : Heap) (b : Block) :
    (h.prepare b).muffled = h.muffled.prepare b.muffled := by
  have hconfig : h.muffled.config = h.config := rfl
  unfold prepare
  rw [hconfig]
  split_ifs <;> rfl

theorem Heap.muffled_release (h : Heap) (b : Block) (keep : Bool) :
    (h.release b keep).muffled = h.muffled.release b.muffled keep := by
  have hprepare := h.muffled_prepare b
  have hconfig : h.muffled.config = h.config := rfl
  unfold release
  rw [hconfig, ← hprepare]
  split_ifs <;> rfl

/-! ### Records -/

namespace Record

variable (rec : Record)

@[simp] theorem muffled_muffled : rec.muffled.muffled = rec.muffled := by
  simp [muffled, Function.comp_def]

@[simp] theorem isAlive_muffled : rec.muffled.isAlive = rec.isAlive := by
  simp [isAlive, muffled]

@[simp] theorem vouches_muffled (t : Option Ticket) : rec.muffled.vouches t = rec.vouches t := by
  cases t <;> rfl

@[simp] theorem nextTicket_muffled : rec.muffled.nextTicket = rec.nextTicket := rfl

@[simp] theorem muffled_enrol : rec.enrol.muffled = rec.muffled.enrol := by
  have hstanding : rec.muffled.standing = rec.standing := by simp [standing]
  have hkind : rec.muffled.kind = rec.kind := rfl
  simp only [enrol, hstanding, hkind]
  split_ifs <;> rfl

@[simp] theorem muffled_deregister (t : Option Ticket) :
    (rec.deregister t).muffled = rec.muffled.deregister t := by
  cases t <;> rfl

theorem alive_muffled : rec.muffled.alive = rec.alive.map (List.map Item.muffled) := by
  cases ho : rec.orphaned <;> cases hobj : rec.object <;>
    simp [alive, muffled, ho, hobj, Except.map]

theorem open?_muffled (a : Access) :
    rec.muffled.open? a = (rec.open? a).map (List.map Item.muffled) := by
  simp only [open?, alive_muffled]
  cases rec.alive with
  | error e => rfl
  | ok items =>
    change (rec.borrow.take a >>= fun _ => .ok (items.map Item.muffled)) = _
    cases rec.borrow.take a <;> rfl

end Record

namespace World

variable (w : World)

@[simp] theorem muffled_muffled : w.muffled.muffled = w.muffled := by
  have htask (t : Task) : t.muffled.muffled = t.muffled := by cases t <;> simp [Task.muffled]
  simp [muffled, Function.comp_def, htask]

/-! ### What is seen of a muffled world -/

@[simp] theorem getElem?_records_muffled (r : RecordId) :
    w.muffled.records[r]? = w.records[r]?.map Record.muffled := by
  simp [muffled]

theorem any_record_muffled {p : Record → Bool} (hp : ∀ rec : Record, p rec.muffled = p rec)
    (r : RecordId) : w.muffled.records[r]?.any p = w.records[r]?.any p := by
  rw [getElem?_records_muffled]
  cases w.records[r]? <;> simp [hp]

@[simp] theorem isAlive_muffled (r : RecordId) : w.muffled.isAlive r = w.isAlive r :=
  w.any_record_muffled Record.isAlive_muffled r

@[simp] theorem isBorrowed_muffled (r : RecordId) : w.muffled.isBorrowed r = w.isBorrowed r :=
  w.any_record_muffled (fun _ => rfl) r

@[simp] theorem watched_muffled (s : Soft) : w.muffled.watched s = w.watched s := by
  cases s with
  | none => rfl
  | some k =>
    simp only [watched, getElem?_records_muffled]
    cases w.records[k.record]? <;> simp

@[simp] theorem isValid_muffled (s : Soft) : w.muffled.isValid s = w.isValid s := by
  rw [isValid, isValid, watched_muffled]

theorem open?_muffled (r : RecordId) (a : Access) :
    w.muffled.open? r a = (w.open? r a).map (List.map Item.muffled) := by
  simp only [open?, getElem?_records_muffled]
  cases w.records[r]? with
  | none => rfl
  | some rec => exact rec.open?_muffled a

@[simp] theorem peekNumber_muffled (s : Soft) : w.muffled.peekNumber s = w.peekNumber s := by
  simp only [peekNumber, watched_muffled]
  cases w.watched s with
  | error e => rfl
  | ok r =>
    change (w.muffled.open? r .shared >>= _) = (w.open? r .shared >>= _)
    rw [open?_muffled]
    cases w.open? r .shared with
    | error e => rfl
    | ok items => cases items <;> simp [bind, Except.bind, Except.map]

/-! ### Changes of a muffled world -/

theorem map_modify {α : Type} {e f g : α → α} (hfg : ∀ x, e (f x) = g (e x)) (xs : Array α)
    (i : Nat) : (xs.modify i f).map e = (xs.map e).modify i g := by
  refine Array.ext_getElem? fun j => ?_
  simp only [Array.getElem?_map, Array.getElem?_modify]
  split_ifs
  · cases xs[j]? <;> simp [hfg]
  · rfl

theorem muffled_modifyRecord {f g : Record → Record} (hfg : ∀ rec, (f rec).muffled = g rec.muffled)
    (r : RecordId) : (w.modifyRecord r f).muffled = w.muffled.modifyRecord r g := by
  simp only [modifyRecord, muffled, map_modify hfg]

theorem muffled_modifyHeap {f g : Heap → Heap} (hfg : ∀ heap, (f heap).muffled = g heap.muffled)
    (h : HeapId) : (w.modifyHeap h f).muffled = w.muffled.modifyHeap h g := by
  simp only [modifyHeap, muffled, map_modify hfg]

theorem muffled_schedule (ts : List Task) :
    (w.schedule ts).muffled = w.muffled.schedule (ts.map Task.muffled) := by
  simp [schedule, muffled]

/-- Nobody hears a panic. -/
@[simp] theorem muffled_raise (p : Panic) : (w.raise p).muffled = w.muffled := by
  unfold raise
  split_ifs <;> rfl

theorem muffled_noteRegistered (r : RecordId) (t : Option Ticket) :
    (w.noteRegistered r t).muffled = w.muffled.noteRegistered r t := by
  simp only [noteRegistered, getElem?_records_muffled]
  cases w.records[r]? with
  | none => rfl
  | some rec =>
    dsimp only [Option.map_some]
    split_ifs
    · exact w.muffled_modifyHeap (f := Heap.noteRegistered) (fun _ => rfl) rec.heap
    · rfl

end World

end Custody
