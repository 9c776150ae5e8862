import Custody.Proofs.Modes.Operations

/-! What a program can do with handles, as data: calls, in a mode in which all of its
objects are built. Variables, guards and heaps go by their numbers. Main result: in either
mode a call gives the same answer (`Op.matches_call`). -/

namespace Custody

/-- What a call tells the program. -/
inductive Answer where
  | done
  | flag (b : Bool)
  /-- A variable, a guard, a heap, a length or an address. -/
  | number (n : Nat)
  | number? (n : Option Nat)
  | item (i : Item)
  | item? (i : Option Item)
  | items (is : List Item)
  /-- An object with its identifier, or elements with their number. -/
  | listed (n : Nat) (is : List Item)
  | distance (n : Int64)
  | order (o : Option Ordering)
  | position (p : Position)
  deriving DecidableEq

/-- The answer without tickets. -/
def Answer.untracked : Answer → Answer
  | .item i => .item i.untracked
  | .item? i => .item? (i.map Item.untracked)
  | .items is => .items (is.map Item.untracked)
  | .listed n is => .listed n (is.map Item.untracked)
  | a => a

/-- Calls that change nothing. -/
inductive Query where
  | owned (owner : Nat)
  | watched (p : SoftPlace)
  | isValid (p : SoftPlace)
  | heapOf (owner : Nat)
  | ownerLength (owner : Nat)
  | softLength (p : SoftPlace)
  | ownerAddress (m : Manner) (owner : Nat)
  | softAddress (p : SoftPlace)
  | ownsAddress (owner address : Nat)
  | elementAddress (m : Manner) (p : SoftPlace) (i : UInt64)
  | elementIndex (m : Manner) (p : SoftPlace) (address : Nat)
  | sameTarget (p q : SoftPlace)
  | sameSoft (p q : SoftPlace)
  | observes (p : SoftPlace) (owner : Nat)
  | guarded (guard : Nat)
  | read (m : Manner) (s : Source)
  | readElement (m : Manner) (s : Source) (i : UInt64)
  | scanPosition (scan : Nat)
  | readScan (m : Manner) (scan : Nat) (aim : Aim)
  | distance (m : Manner) (scan other : Nat)
  | sameScan (m : Manner) (scan other : Nat)
  | order (m : Manner) (scan other : Nat)
  | order? (m : Manner) (scan other : Nat)
  | checkScan (m : Manner) (scan : Nat)
  | walkPosition (walk : Nat)
  | readWalk (m : Manner) (walk : Nat)
  | sameWalk (m : Manner) (walk other : Nat)
  | checkWalk (m : Manner) (walk : Nat)

inductive Call where
  | ask (q : Query)
  | openHeap (c : Config)
  | reclaim (heap : HeapId)
  | setDetecting (heap : HeapId) (on : Bool)
  /-- An object of a new owner. -/
  | build (m : Manner) (heap : HeapId) (s : Shape) (e : Element) (p : Plan)
  | emptyOwner
  | reset (m : Manner) (place : OwnerPlace)
  /-- Resets an owner, with a new object after that. -/
  | replace (place : OwnerPlace) (s : Shape) (e : Element) (p : Plan)
  /-- The same, with a node that takes its handles from variables. -/
  | replaceNode (place : OwnerPlace) (number : Int64) (f : Finalizer) (next : Nat)
    (prev : SoftPlace)
  | swapOwners (i j : Nat)
  | takeOwner (i j : Nat)
  | dropOwner (owner : Nat)
  | dropOwnerUnwinding (owner : Nat)
  /-- A handle for what an owner holds. -/
  | watch (m : Manner) (owner : Nat)
  | nullSoft
  | copySoft (m : Manner) (p : SoftPlace)
  | swapSofts (p q : SoftPlace)
  | takeSoft (i j : Nat)
  | dropSoft (p : SoftPlace)
  | lend (s : Source) (a : Access)
  | lendElement (s : Source) (a : Access) (i : UInt64)
  | lendScanned (a : Access) (scan : Nat) (aim : Aim)
  | duplicate (guard : Nat)
  | narrow (guard i : Nat)
  | put (guard : Nat) (v : Int)
  | endBorrow (guard : Nat)
  | write (m : Manner) (s : Source) (v : Int)
  | writeElement (m : Manner) (s : Source) (i : UInt64) (v : Int)
  | link (parent child : Nat)
  | unlink (parent child : Nat)
  | observe (owner soft : Nat)
  | watchNext (soft : Nat)
  | watchBack (soft : Nat)
  | resetNext (soft : Nat)
  | openScan (p : SoftPlace) (i : UInt64)
  | nullScan
  | copyScan (scan : Nat)
  | moveScan (scan : Nat) (m : Position.Move)
  | writeScan (m : Manner) (scan : Nat) (v : Int)
  | nextValue (scan : Nat)
  | values (scan : Nat)
  | dropScan (scan : Nat)
  | insertKey (table : Nat) (key : Int64)
  | clearBucket (table : Nat) (b : UInt64)
  | popBucket (table : Nat) (b : UInt64)
  | cutBucket (table : Nat) (b : UInt64)
  | beginWalk (m : Manner) (p : SoftPlace)
  | endWalk (p : SoftPlace)
  | copyWalk (walk : Nat)
  | stepWalk (m : Manner) (walk : Nat)
  | nextKey (m : Manner) (walk : Nat)
  | keys (walk : Nat)
  | dropWalk (walk : Nat)

namespace Op

/-- An operation that answers nothing. -/
def done (a : Op Unit) : Op Answer := do
  a
  return .done

/-- What comes of two scans. -/
def ofScans {α : Type} (m : Manner) (i j : Nat) (f : Scan → Scan → Except Fault α) : Op α :=
  inManner m do MonadExcept.ofExcept (f (← look (·.scan i)) (← look (·.scan j)))

/-- A refusal of access as a fault. -/
def orRefused {α : Type} (x : Except AccessRefusal α) : Except Fault α :=
  x.mapError fun e => .refused (.access e)

def ask : Query → Op Answer
  | .owned i => .number? <$> look (·.owner i)
  | .watched p => .number? <$> look fun w => (w.soft p).map Watch.record
  | .isValid p => .flag <$> look fun w => w.isValid (w.soft p)
  | .heapOf i => .number? <$> look fun w => w.heapOf (w.owner i)
  | .ownerLength i => .number <$> look fun w => w.ownerLength (w.owner i)
  | .softLength p => .number <$> look fun w => w.softLength (w.soft p)
  | .ownerAddress m i => .number <$> inManner m (inspect fun w => w.ownerAddress (w.owner i))
  | .softAddress p => .number? <$> look fun w => w.softAddress? (w.soft p)
  | .ownsAddress i address => .flag <$> look fun w => w.ownsAddress (w.owner i) address
  | .elementAddress m p i => .number <$> inManner m (inspect fun w => w.elementAddress (w.soft p) i)
  | .elementIndex m p address =>
    .number <$> inManner m (inspect fun w => w.elementIndex (w.soft p) address)
  | .sameTarget p q => .flag <$> look fun w => World.sameTarget (w.soft p) (w.soft q)
  | .sameSoft p q => .flag <$> look fun w => World.sameSoft (w.soft p) (w.soft q)
  | .observes p i => .flag <$> look fun w => World.observes (w.soft p) (w.owner i)
  | .guarded g => .items <$> look (·.guarded g)
  | .read m s => (fun x => .listed x.1 x.2) <$> read m s
  | .readElement m s i => .item <$> readElement m s i
  | .scanPosition i => .position <$> look fun w => (w.scan i).position
  | .readScan m i aim => .item <$> readScan m i aim
  | .distance m i j => .distance <$> ofScans m i j Scan.distance
  | .sameScan m i j => .flag <$> ofScans m i j fun s t => orRefused (s.same t)
  | .order m i j => (fun o => .order (some o)) <$> ofScans m i j fun s t => orRefused (s.order t)
  | .order? m i j => .order <$> ofScans m i j fun s t => orRefused (s.order? t)
  | .checkScan m i => done (inManner m (inspect (·.checkScan i)))
  | .walkPosition i => .position <$> look fun w => (w.walk i).buckets.position
  | .readWalk m i => .item <$> inManner m (inspect (·.walked i))
  | .sameWalk m i j => .flag <$> inManner m (inspect (·.sameWalk i j))
  | .checkWalk m i => done (inManner m (inspect (·.checkWalk i)))

/-- The call of a program that has its objects built in a mode. What heaps tell of the blocks
that they keep is no answer. -/
def call (mode : Mode) : Call → Op Answer
  | .ask q => ask q
  | .openHeap c => do
    match ← ExceptT.lift (Act.openHeap c) with
    | .ok h => return .number h
    | .error e => throw (.refused (.config e))
  | .reclaim h => done (act (.reclaim h))
  | .setDetecting h on => done (act (.setDetecting h on))
  | .build m h s e p => .number <$> inManner m (build h ⟨s, e, mode⟩ p)
  | .emptyOwner => .number <$> (ExceptT.lift Act.newOwner : Op Nat)
  | .reset m o => done (reset m o)
  | .replace o s e p => done (replace o (.plain ⟨s, e, mode⟩ p))
  | .replaceNode o v f i p => done (replace o (.node mode v f i p))
  | .swapOwners i j => done (act (.swapOwners i j))
  | .takeOwner i j => done (takeOwner i j)
  | .dropOwner i => done (dropOwner i)
  | .dropOwnerUnwinding i => done (dropOwnerUnwinding i)
  | .watch m i => do .number <$> inManner m (watch (← look (·.owner i)))
  | .nullSoft => .number <$> watch none
  | .copySoft m p => do .number <$> inManner m (watch ((← look (·.soft p)).map Watch.record))
  | .swapSofts p q => done (act (.swapSofts p q))
  | .takeSoft i j => done (takeSoft i j)
  | .dropSoft p => done (dropSoft p)
  | .lend s a => .number <$> permitted (Act.lend s a)
  | .lendElement s a i => .number <$> lendElement s a i
  | .lendScanned a i aim => .number <$> lendScanned a i aim
  | .duplicate g => .number? <$> (ExceptT.lift (Act.duplicate g) : Op (Option Nat))
  | .narrow g i => done (act (.narrow g i))
  | .put g v => done (act (.put g v))
  | .endBorrow g => done (act (.endBorrow g))
  | .write m s v => done (write m s v)
  | .writeElement m s i v => done (writeElement m s i v)
  | .link parent child => done (link parent child)
  | .unlink parent child => done (unlink parent child)
  | .observe o s => done (observe o s)
  | .watchNext s => .number <$> watchNext s
  | .watchBack s => .number <$> watchBack s
  | .resetNext s => done (resetNext s)
  | .openScan p i => do .number <$> openScan (← look (·.soft p)) i
  | .nullScan => .number <$> openScan none 0
  | .copyScan i => .number <$> copyScan i
  | .moveScan i m => done (moveScan i m)
  | .writeScan m i v => done (writeScan m i v)
  | .nextValue i => .item? <$> nextValue i
  | .values i => (fun x => .listed x.1 x.2) <$> values i
  | .dropScan i => done (dropScan i)
  | .insertKey t key => done (insertKey t key)
  | .clearBucket t b => done (clearBucket t b)
  | .popBucket t b => done (popBucket t b)
  | .cutBucket t b => done (cutBucket t b)
  | .beginWalk m p => do .number <$> inManner m (beginWalk (← look (·.soft p)))
  | .endWalk p => do .number <$> endWalk (← look (·.soft p))
  | .copyWalk i => .number <$> copyWalk i
  | .stepWalk m i => done (inManner m (stepWalk i))
  | .nextKey m i => .item? <$> nextKey m i
  | .keys i => .items <$> keys i
  | .dropWalk i => done (dropWalk i)

end Op

/-! ### Questions -/

section Handles

variable {s s' t t' : Soft}

theorem sameTarget_eq (hs : s'.map Watch.untracked = s.map Watch.untracked)
    (ht : t'.map Watch.untracked = t.map Watch.untracked) :
    World.sameTarget s' t' = World.sameTarget s t := by
  have heq (a b : Soft) : World.sameTarget a b =
      ((a.map Watch.record).any fun r => decide (b.map Watch.record = some r)) := by
    cases a <;> cases b <;> simp [World.sameTarget, eq_comm]
  rw [heq, heq, target_eq hs, target_eq ht]

theorem sameSoft_eq (hs : s'.map Watch.untracked = s.map Watch.untracked)
    (ht : t'.map Watch.untracked = t.map Watch.untracked) :
    World.sameSoft s' t' = World.sameSoft s t := by
  rw [World.sameSoft, World.sameSoft, isNone_eq hs, isNone_eq ht, sameTarget_eq hs ht]

end Handles

namespace Scan

variable {s s' t t' : Scan}

theorem isNull_eq (hs : s'.untracked = s.untracked) : s'.isNull = s.isNull :=
  isNone_eq (congrArg Scan.array hs :)

theorem comparable_eq (hs : s'.untracked = s.untracked) (ht : t'.untracked = t.untracked) :
    s'.comparable t' = s.comparable t := by
  have harray : World.sameTarget s'.array t'.array = World.sameTarget s.array t.array :=
    sameTarget_eq (congrArg Scan.array hs :) (congrArg Scan.array ht :)
  rw [comparable, comparable, harray, isNull_eq hs, isNull_eq ht]

theorem distance_eq (hs : s'.untracked = s.untracked) (ht : t'.untracked = t.untracked) :
    s'.distance t' = s.distance t := by
  rw [distance, distance, comparable_eq hs ht, position_eq hs, position_eq ht]

theorem same_eq (hs : s'.untracked = s.untracked) (ht : t'.untracked = t.untracked) :
    s'.same t' = s.same t := by
  rw [same, same, comparable_eq hs ht, isNull_eq hs, isNull_eq ht, position_eq hs, position_eq ht]

theorem order_eq (hs : s'.untracked = s.untracked) (ht : t'.untracked = t.untracked) :
    s'.order t' = s.order t := by
  rw [order, order, comparable_eq hs ht, isNull_eq hs, isNull_eq ht, position_eq hs, position_eq ht]

theorem order?_eq (hs : s'.untracked = s.untracked) (ht : t'.untracked = t.untracked) :
    s'.order? t' = s.order? t := by
  rw [order?, order?, order_eq hs ht]

end Scan

namespace World

variable {v w : World}

theorem Twin.target (h : w.Twin v) (p : SoftPlace) :
    (v.soft p).map Watch.record = (w.soft p).map Watch.record := target_eq (h.soft p)

theorem Twin.softLength (h : w.Twin v) (p : SoftPlace) :
    v.softLength (v.soft p) = w.softLength (w.soft p) := by
  rw [World.softLength, World.softLength, h.target, h.rangeLength]

theorem Twin.elementSize (h : w.Twin v) (p : SoftPlace) :
    v.elementSize (v.soft p) = w.elementSize (w.soft p) := by
  obtain ⟨hw, hv⟩ | ⟨k, j, hw, hv, hkj⟩ := eq_none_or_eq_some_of_map (h.soft p)
  · rw [hw, hv]
    rfl
  · have hrecord : j.record = k.record := (congrArg Watch.record hkj :)
    have hsize := h.map_record k.record (f := fun r => r.kind.element.layout.size)
      fun _ _ hab => by rw [hab.kind]; rfl
    rw [hw, hv, World.elementSize, World.elementSize, hrecord, hsize]

theorem Twin.observes (h : w.Twin v) (p : SoftPlace) (i : Nat) :
    World.observes (v.soft p) (v.owner i) = World.observes (w.soft p) (w.owner i) := by
  rw [h.owner]
  obtain ⟨hw, hv⟩ | ⟨k, j, hw, hv, hkj⟩ := eq_none_or_eq_some_of_map (h.soft p)
  · rw [hw, hv]
  · have hrecord : j.record = k.record := (congrArg Watch.record hkj :)
    rw [hw, hv]
    cases w.owner i with
    | none => rfl
    | some r => simp only [World.observes, hrecord]

theorem Twin.ownsAddress (h : w.Twin v) (i address : Nat) :
    v.ownsAddress (v.owner i) address = w.ownsAddress (w.owner i) address := by
  rw [h.owner]
  cases w.owner i with
  | none => rfl
  | some r => exact h.any_record r fun _ _ hab => hab.contains address

theorem Twin.ownerAddress (h : w.Twin v) (i : Nat) :
    v.ownerAddress (v.owner i) = w.ownerAddress (w.owner i) := by
  rw [h.owner]
  cases w.owner i with
  | none => rfl
  | some r => simp only [World.ownerAddress, h.address?]

theorem Parallel.isValid (h : w.Parallel v) (p : SoftPlace) :
    v.isValid (v.soft p) = w.isValid (w.soft p) := by
  rw [World.isValid, World.isValid, h.watched]

theorem Parallel.softAddress? (h : w.Parallel v) (p : SoftPlace) :
    v.softAddress? (v.soft p) = w.softAddress? (w.soft p) := by
  simp only [World.softAddress?, h.watched]
  cases w.watched (w.soft p) with
  | error e => rfl
  | ok r => exact h.twin.address? r

theorem Parallel.baseAddress (h : w.Parallel v) (p : SoftPlace) :
    v.baseAddress (v.soft p) = w.baseAddress (w.soft p) := by
  simp only [World.baseAddress, h.watched, h.twin.address?]

theorem Parallel.elementAddress (h : w.Parallel v) (p : SoftPlace) (i : UInt64) :
    v.elementAddress (v.soft p) i = w.elementAddress (w.soft p) i := by
  simp only [World.elementAddress, h.twin.softLength, h.twin.elementSize, h.baseAddress]

theorem Parallel.elementIndex (h : w.Parallel v) (p : SoftPlace) (address : Nat) :
    v.elementIndex (v.soft p) address = w.elementIndex (w.soft p) address := by
  simp only [World.elementIndex, h.twin.softLength, h.twin.elementSize, h.baseAddress]

theorem Parallel.checkScan (h : w.Parallel v) (i : Nat) :
    (v.checkScan i).map id = (w.checkScan i).map id := by
  refine h.inspect_bind (.soft (.scan i)) .shared fun _ xs ys hxy => ?_
  simp only [length_eq hxy, Scan.position_eq (h.twin.scan i)]

theorem Twin.sameWalk (h : w.Twin v) (i j : Nat) : v.sameWalk i j = w.sameWalk i j := by
  have hi := h.walk i
  have hj := h.walk j
  have hbi := Walk.buckets_eq hi
  have hbj := Walk.buckets_eq hj
  have harrays := sameTarget_eq (congrArg Scan.array hbi :) (congrArg Scan.array hbj :)
  have hnodes := sameSoft_eq (congrArg Walk.node hi :) (congrArg Walk.node hj :)
  rw [World.sameWalk, World.sameWalk, Scan.position_eq hbi, Scan.position_eq hbj, harrays, hnodes]

theorem node_walk (w : World) (i : Nat) : (w.walk i).node = w.soft (.node i) := by
  rw [World.walk, World.soft, World.soft?]
  cases w.walks[i]? <;> rfl

theorem Parallel.checkWalk (h : w.Parallel v) (i : Nat) :
    (v.checkWalk i).map id = (w.checkWalk i).map id := by
  refine h.inspect_bind (.soft (.buckets i)) .shared fun _ xs ys hxy => ?_
  have hbuckets := Walk.buckets_eq (h.twin.walk i)
  have hsome : (v.soft (.node i)).isSome = (w.soft (.node i)).isSome := by
    simpa using congrArg Option.isSome (h.twin.soft (.node i))
  simp only [length_eq hxy, Scan.position_eq hbuckets, node_walk, h.isValid, hsome]

end World

/-! ### Calls -/

namespace Op

variable {α β : Type} {R : α → β → Prop} {a : Op α} {b : Op β}

theorem Matches.map {γ δ : Type} {S : γ → δ → Prop} {f : α → γ} {g : β → δ} (h : Matches R a b)
    (hfg : ∀ x y, R x y → S (f x) (g y)) : Matches S (f <$> a) (g <$> b) := by
  rw [← bind_pure_comp, ← bind_pure_comp]
  exact h.bind fun x y hxy => matches_pure (hfg x y hxy)

theorem Matches.answer {b : Op α} (h : Matches Eq a b) (f : α → Answer) :
    Matches (SameBy Answer.untracked) (f <$> a) (f <$> b) := by
  refine h.map ?_
  rintro x _ rfl
  rfl

theorem Matches.item {a b : Op Item} (h : Matches (SameBy Item.untracked) a b) :
    Matches (SameBy Answer.untracked) (Answer.item <$> a) (Answer.item <$> b) :=
  h.map fun _ _ hxy => congrArg Answer.item hxy

theorem Matches.item? {a b : Op (Option Item)}
    (h : Matches (SameBy (Option.map Item.untracked)) a b) :
    Matches (SameBy Answer.untracked) (Answer.item? <$> a) (Answer.item? <$> b) :=
  h.map fun _ _ hxy => congrArg Answer.item? hxy

theorem Matches.items {a b : Op (List Item)} (h : Matches (SameBy (List.map Item.untracked)) a b) :
    Matches (SameBy Answer.untracked) (Answer.items <$> a) (Answer.items <$> b) :=
  h.map fun _ _ hxy => congrArg Answer.items hxy

theorem Matches.listed {a b : Op (Nat × List Item)}
    (h : Matches (SameBy (Prod.map id (List.map Item.untracked))) a b) :
    Matches (SameBy Answer.untracked) ((fun x => Answer.listed x.1 x.2) <$> a)
      ((fun x => Answer.listed x.1 x.2) <$> b) :=
  h.map fun _ _ hxy => congrArg (fun x : Nat × List Item => Answer.listed x.1 x.2) hxy

theorem Matches.done {a b : Op Unit} (h : Matches Eq a b) :
    Matches (SameBy Answer.untracked) (Op.done a) (Op.done b) :=
  h.bind fun _ _ _ => matches_pure rfl

/-- What parallel worlds have in common is seen in both. -/
theorem matches_sees {f : World → α} (h : ∀ w v : World, w.Parallel v → f v = f w) :
    Matches Eq (look f) (look f) :=
  matches_look fun w v hwv => (h w v hwv).symm

theorem matches_finds {f : World → Except AccessRefusal α} (m : Manner)
    (h : ∀ w v : World, w.Parallel v → (f v).map id = (f w).map id) :
    Matches Eq (inManner m (inspect f)) (inManner m (inspect f)) := by
  refine matches_inManner m ((matches_look (R := SameBy (Except.map id)) h).bind fun x y hxy => ?_)
  cases x <;> cases y
  · cases hxy
    exact matches_throw _
  · cases hxy
  · cases hxy
  · exact matches_pure (Except.ok.inj hxy).symm

theorem matches_ofScans (m : Manner) (i j : Nat) {f : Scan → Scan → Except Fault α}
    (hf : ∀ s s' t t', s'.untracked = s.untracked → t'.untracked = t.untracked → f s' t' = f s t) :
    Matches Eq (ofScans m i j f) (ofScans m i j f) := by
  refine matches_inManner m ?_
  refine (matches_scan i).bind fun s s' hs => (matches_scan j).bind fun t t' ht => ?_
  rw [hf s s' t t' hs ht]
  cases f s t with
  | ok x => exact matches_pure rfl
  | error fault => exact matches_throw fault

theorem matches_ask (q : Query) : Matches (SameBy Answer.untracked) (ask q) (ask q) := by
  cases q with
  | owned i => exact (matches_owner i).answer _
  | watched p => exact (matches_sees fun _ _ h => h.twin.target p).answer _
  | isValid p => exact (matches_sees fun _ _ h => h.isValid p).answer _
  | heapOf i => exact (matches_sees fun w v h => by rw [h.twin.owner, h.twin.heapOf]).answer _
  | ownerLength i =>
    refine (matches_sees fun w v h => ?_).answer _
    rw [h.twin.owner]
    exact h.twin.rangeLength _
  | softLength p => exact (matches_sees fun _ _ h => h.twin.softLength p).answer _
  | ownerAddress m i =>
    exact (matches_finds m fun _ _ h => congrArg _ (h.twin.ownerAddress i)).answer _
  | softAddress p => exact (matches_sees fun _ _ h => h.softAddress? p).answer _
  | ownsAddress i address => exact (matches_sees fun _ _ h => h.twin.ownsAddress i address).answer _
  | elementAddress m p i =>
    exact (matches_finds m fun _ _ h => congrArg _ (h.elementAddress p i)).answer _
  | elementIndex m p address =>
    exact (matches_finds m fun _ _ h => congrArg _ (h.elementIndex p address)).answer _
  | sameTarget p q =>
    exact (matches_sees fun _ _ h => sameTarget_eq (h.twin.soft p) (h.twin.soft q)).answer _
  | sameSoft p q =>
    exact (matches_sees fun _ _ h => sameSoft_eq (h.twin.soft p) (h.twin.soft q)).answer _
  | observes p i => exact (matches_sees fun _ _ h => h.twin.observes p i).answer _
  | guarded g => exact (matches_guarded g).items
  | read m s => exact (matches_read m s).listed
  | readElement m s i => exact (matches_readElement m s i).item
  | scanPosition i => exact (matches_sees fun _ _ h => Scan.position_eq (h.twin.scan i)).answer _
  | readScan m i aim => exact (matches_readScan m i aim).item
  | distance m i j => exact (matches_ofScans m i j fun _ _ _ _ => Scan.distance_eq).answer _
  | sameScan m i j =>
    exact (matches_ofScans m i j fun _ _ _ _ hs ht => congrArg _ (Scan.same_eq hs ht)).answer _
  | order m i j =>
    exact (matches_ofScans m i j fun _ _ _ _ hs ht => congrArg _ (Scan.order_eq hs ht)).answer _
  | order? m i j =>
    exact (matches_ofScans m i j fun _ _ _ _ hs ht => congrArg _ (Scan.order?_eq hs ht)).answer _
  | checkScan m i => exact (matches_finds m fun _ _ h => h.checkScan i).done
  | walkPosition i =>
    refine (matches_sees fun w v h => ?_).answer _
    exact Scan.position_eq (Walk.buckets_eq (h.twin.walk i))
  | readWalk m i => exact (matches_inManner m (matches_inspect fun _ _ h => h.walked i)).item
  | sameWalk m i j => exact (matches_finds m fun _ _ h => congrArg _ (h.twin.sameWalk i j)).answer _
  | checkWalk m i => exact (matches_finds m fun _ _ h => h.checkWalk i).done

/-- A call gives the same answer in either mode, as long as it is refused no registration, and
leaves twins of twins. -/
theorem matches_call (c : Call) :
    Matches (SameBy Answer.untracked) (call .tracked c) (call .untracked c) := by
  cases c with
  | ask q => exact matches_ask q
  | openHeap c =>
    refine (matches_lift (Act.matches_openHeap c)).bind ?_
    rintro r _ rfl
    cases r with
    | ok h => exact matches_pure rfl
    | error e => exact matches_throw _
  | reclaim h => exact (matches_act (.reclaim h)).done
  | setDetecting h on => exact (matches_act (.setDetecting h on)).done
  | build m h s e p => exact (matches_inManner m (matches_build h ⟨s, e, .tracked⟩ p)).answer _
  | emptyOwner => exact matches_newOwner.answer _
  | reset m i => exact (matches_reset m i).done
  | replace o s e p => exact (matches_replace o (.plain ⟨s, e, .tracked⟩ p)).done
  | replaceNode o v f i p => exact (matches_replace o (.node .tracked v f i p)).done
  | swapOwners i j => exact (matches_act (.swapOwners i j)).done
  | takeOwner i j => exact (matches_takeOwner i j).done
  | dropOwner i => exact (matches_dropOwner i).done
  | dropOwnerUnwinding i => exact (matches_dropOwnerUnwinding i).done
  | watch m i =>
    refine (matches_owner i).bind ?_
    rintro o _ rfl
    exact (matches_inManner m (matches_watch o)).answer _
  | nullSoft => exact (matches_watch none).answer _
  | copySoft m p =>
    refine (matches_soft p).bind fun s t hst => ?_
    rw [target_eq hst]
    exact (matches_inManner m (matches_watch _)).answer _
  | swapSofts p q => exact (matches_act (.swapSofts p q)).done
  | takeSoft i j => exact (matches_takeSoft i j).done
  | dropSoft p => exact (matches_dropSoft p).done
  | lend s a => exact (matches_lend s a).answer _
  | lendElement s a i => exact (matches_lendElement s a i).answer _
  | lendScanned a i aim => exact (matches_lendScanned a i aim).answer _
  | duplicate g => exact (matches_lift (Act.matches_duplicate g)).answer _
  | narrow g i => exact (matches_act (.narrow g i)).done
  | put g x => exact (matches_act (.put g x)).done
  | endBorrow g => exact (matches_act (.endBorrow g)).done
  | write m s x => exact (matches_write m s x).done
  | writeElement m s i x => exact (matches_writeElement m s i x).done
  | link parent child => exact (matches_link parent child).done
  | unlink parent child => exact (matches_unlink parent child).done
  | observe o s => exact (matches_observe o s).done
  | watchNext s => exact (matches_watchNext s).answer _
  | watchBack s => exact (matches_watchBack s).answer _
  | resetNext s => exact (matches_resetNext s).done
  | openScan p i => exact (matches_soft p).bind fun s t hst => (matches_openScan hst i).answer _
  | nullScan => exact (matches_openScan rfl 0).answer _
  | copyScan i => exact (matches_copyScan i).answer _
  | moveScan i m => exact (matches_moveScan i m).done
  | writeScan m i x => exact (matches_writeScan m i x).done
  | nextValue i => exact (matches_nextValue i).item?
  | values i => exact (matches_values i).listed
  | dropScan i => exact (matches_dropScan i).done
  | insertKey t key => exact (matches_insertKey t key).done
  | clearBucket t b => exact (matches_clearBucket t b).done
  | popBucket t b => exact (matches_popBucket t b).done
  | cutBucket t b => exact (matches_cutBucket t b).done
  | beginWalk m p =>
    exact (matches_soft p).bind fun s t hst => (matches_inManner m (matches_beginWalk hst)).answer _
  | endWalk p => exact (matches_soft p).bind fun s t hst => (matches_endWalk hst).answer _
  | copyWalk i => exact (matches_copyWalk i).answer _
  | stepWalk m i => exact (matches_inManner m (matches_stepWalk i)).done
  | nextKey m i => exact (matches_nextKey m i).item?
  | keys i => exact (matches_keys i).items
  | dropWalk i => exact (matches_dropWalk i).done

end Op

end Custody
