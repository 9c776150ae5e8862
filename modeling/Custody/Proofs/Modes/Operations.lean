import Custody.Handle.Node
import Custody.Handle.Table
import Custody.Proofs.Modes.Programs

/-! No operation on handles notices whether the allocations are tracked. -/

namespace Custody

/-! ### What operations look at -/

theorem elementAt_eq {xs ys : List Item} (h : ys.map Item.untracked = xs.map Item.untracked)
    (i : UInt64) : (elementAt ys i).map Item.untracked = (elementAt xs i).map Item.untracked := by
  have hi : ys[i.toNat]?.map Item.untracked = xs[i.toNat]?.map Item.untracked := by
    rw [← List.getElem?_map, ← List.getElem?_map, h]
  rw [elementAt, elementAt, length_eq h]
  obtain ⟨hx, hy⟩ | ⟨a, b, hx, hy, hab⟩ := eq_none_or_eq_some_of_map hi
  · rw [hx, hy]
  · rw [hx, hy]
    exact congrArg Except.ok hab

namespace World

variable {v w : World}

theorem Twin.heapOf (h : w.Twin v) (o : Owner) : v.heapOf o = w.heapOf o := by
  cases o with
  | none => rfl
  | some r => exact h.map_record r fun _ _ hab => hab.heap

theorem Twin.guarded (h : w.Twin v) (g : Nat) :
    (v.guarded g).map Item.untracked = (w.guarded g).map Item.untracked := by
  rw [World.guarded, World.guarded, h.guard?]
  cases w.guard? g with
  | none => rfl
  | some guard =>
    obtain ⟨hw, hv⟩ | ⟨xs, ys, hw, hv, hxy⟩ := eq_none_or_eq_some_of_map (h.object? guard.record)
    · simp only [hw, hv]
    · simp only [hw, hv, Option.getD_some]
      exact hxy

theorem Twin.scan (h : w.Twin v) (i : Nat) : (v.scan i).untracked = (w.scan i).untracked := by
  rw [World.scan, World.scan]
  obtain ⟨hw, hv⟩ | ⟨x, y, hw, hv, hxy⟩ := eq_none_or_eq_some_of_map (h.scan? i)
  · rw [hw, hv]
  · rw [hw, hv]
    exact hxy

theorem Twin.walk (h : w.Twin v) (i : Nat) : (v.walk i).untracked = (w.walk i).untracked := by
  rw [World.walk, World.walk]
  obtain ⟨hw, hv⟩ | ⟨x, y, hw, hv, hxy⟩ := eq_none_or_eq_some_of_map (h.walk? i)
  · rw [hw, hv]
  · rw [hw, hv]
    exact hxy

/-- What handles lead to is the same. -/
theorem Parallel.inspect (h : w.Parallel v) (s : Source) (a : Access) :
    (v.inspect s a).map (Prod.map id (List.map Item.untracked)) =
      (w.inspect s a).map (Prod.map id (List.map Item.untracked)) := by
  simp only [World.inspect, h.reach]
  cases w.reach s with
  | error e => rfl
  | ok r =>
    obtain ⟨e, hx, hy⟩ | ⟨xs, ys, hx, hy, hxy⟩ := eq_error_or_eq_ok_of_map (h.twin.open? r a)
    · simp only [bind, Except.bind, hx, hy]
    · simp only [bind, Except.bind, hx, hy]
      exact congrArg (fun zs => Except.ok (r, zs)) hxy

/-- What is found out about an object through a handle is the same, if it is about nothing that
tracking adds. -/
theorem Parallel.inspect_bind {α γ : Type} (h : w.Parallel v) (s : Source) (a : Access)
    {f g : RecordId × List Item → Except AccessRefusal α} {e : α → γ}
    (hfg : ∀ r xs ys, ys.map Item.untracked = xs.map Item.untracked →
      (g (r, ys)).map e = (f (r, xs)).map e) :
    (v.inspect s a >>= g).map e = (w.inspect s a >>= f).map e := by
  obtain ⟨c, hx, hy⟩ | ⟨⟨r, xs⟩, ⟨q, ys⟩, hx, hy, hxy⟩ := eq_error_or_eq_ok_of_map (h.inspect s a)
  · rw [hx, hy]
    rfl
  · obtain ⟨hr, hitems⟩ := Prod.mk.inj hxy
    obtain rfl : q = r := hr
    rw [hx, hy]
    exact hfg q xs ys hitems

theorem Parallel.element (h : w.Parallel v) (s : Source) (i : UInt64) :
    (v.element s i).map Item.untracked = (w.element s i).map Item.untracked :=
  h.inspect_bind s .shared fun _ _ _ hxy => elementAt_eq hxy i

theorem Parallel.scanned (h : w.Parallel v) (i : Nat) (a : Aim) :
    (v.scanned i a).map Item.untracked = (w.scanned i a).map Item.untracked := by
  refine h.inspect_bind (.soft (.scan i)) .shared fun _ xs ys hxy => ?_
  simp only [length_eq hxy, Scan.position_eq (h.twin.scan i)]
  cases (w.scan i).position.aim xs.length a with
  | error e => rfl
  | ok index => exact elementAt_eq hxy index

theorem Parallel.elementsFrom (h : w.Parallel v) (i : Nat) :
    (v.elementsFrom i).map (List.map Item.untracked) =
      (w.elementsFrom i).map (List.map Item.untracked) := by
  refine h.inspect_bind (.soft (.scan i)) .shared fun _ xs ys hxy => ?_
  refine congrArg Except.ok ?_
  rw [Scan.position_eq (h.twin.scan i), List.map_drop, List.map_drop, hxy]

theorem Parallel.walked (h : w.Parallel v) (i : Nat) :
    (v.walked i).map Item.untracked = (w.walked i).map Item.untracked :=
  h.inspect_bind (.soft (.node i)) .shared fun _ _ _ hxy => elementAt_eq hxy 0

theorem Parallel.bucketHead (h : w.Parallel v) (i : Nat) :
    (v.bucketHead i).map id = (w.bucketHead i).map id := by
  refine h.inspect_bind (.soft (.buckets i)) .shared fun _ xs ys hxy => ?_
  simp only [length_eq hxy, Scan.position_eq (Walk.buckets_eq (h.twin.walk i))]
  cases (w.walk i).buckets.position.aim xs.length .here with
  | error e => rfl
  | ok index =>
    obtain ⟨e, hx, hy⟩ | ⟨a, b, hx, hy, hab⟩ := eq_error_or_eq_ok_of_map (elementAt_eq hxy index)
    · simp only [bind, Except.bind, hx, hy]
    · simp only [bind, Except.bind, hx, hy, link_eq hab]

end World

/-! ### Owners -/

def Value.untracked : Value → Value
  | .plain k p => .plain k.untracked p
  | .node _ v f i q => .node .untracked v f i q

theorem Act.matches_scrap (x : Value) : Matches Eq (Op.scrap x) (Op.scrap x.untracked) := by
  cases x with
  | plain k p =>
    refine matches_forM (fun i => ?_) _
    exact (matches_act (.scrap (p.seed i))).bind fun _ _ _ => matches_drain
  | node m v f i q => exact (matches_act (.scrapNode v f i q)).bind fun _ _ _ => matches_drain

theorem World.Twin.resetAt {v w : World} (h : w.Twin v) (o : OwnerPlace) :
    (v.resetAt o).1 = (w.resetAt o).1 ∧ (w.resetAt o).2.Twin (v.resetAt o).2 := by
  cases o with
  | owner i => exact h.resetOwner i
  | link g i => exact h.resetLink g i

theorem World.Twin.ownerAt {v w : World} (h : w.Twin v) (o : OwnerPlace) :
    v.ownerAt o = w.ownerAt o := by
  cases o with
  | owner i => exact h.owner i
  | link g i =>
    rw [World.ownerAt, World.ownerAt, h.writable?]
    cases w.writable? g with
    | none => rfl
    | some guard =>
      obtain ⟨hw, hv⟩ | ⟨x, y, hw, hv, hxy⟩ := eq_none_or_eq_some_of_map (h.element? guard i)
      · simp only [Option.bind_some, hw, hv]
      · simp only [Option.bind_some, hw, hv, link_eq hxy]

theorem Act.matches_resetAt (o : OwnerPlace) : Matches Eq (resetAt o) (resetAt o) := by
  cases o with
  | owner i => exact matches_does fun _ _ h _ => (h.twin.resetAt (.owner i)).imp_left Eq.symm
  | link g i => exact matches_does fun _ _ h _ => (h.twin.resetAt (.link g i)).imp_left Eq.symm

theorem Act.matches_letGo (p : SoftPlace) :
    Matches Eq (act (.discardSoft p) >>= fun _ => drain)
      (act (.discardSoft p) >>= fun _ => drain) :=
  (matches_act (.discardSoft p)).bind fun _ _ _ => matches_drain

namespace Op

variable {α β : Type} {R : α → β → Prop} {v w : World}

/-! ### Guards -/

theorem matches_lend (s : Source) (a : Access) :
    Matches Eq (permitted (Act.lend s a)) (permitted (Act.lend s a)) :=
  matches_permitted (Act.matches_lend s a)

theorem matches_borrowing (s : Source) (a : Access) {f : Nat → Op α} {g : Nat → Op β}
    (hfg : ∀ i, Matches R (f i) (g i)) : Matches R (borrowing s a f) (borrowing s a g) := by
  refine (matches_lend s a).bind ?_
  rintro i _ rfl
  exact matches_thenClean (hfg i) (Act.matches_act (.endBorrow i))

theorem matches_write (m : Manner) (s : Source) (x : Int) :
    Matches Eq (write m s x) (write m s x) := by
  refine matches_inManner m (matches_borrowing s .exclusive fun g => ?_)
  exact matches_act (.put g x)

theorem matches_read (m : Manner) (s : Source) :
    Matches (SameBy (Prod.map id (List.map Item.untracked))) (read m s) (read m s) :=
  matches_inManner m (matches_inspect fun _ _ h => h.inspect s .shared)

theorem matches_guarded (g : Nat) :
    Matches (SameBy (List.map Item.untracked)) (look (·.guarded g)) (look (·.guarded g)) :=
  matches_look fun _ _ h => h.twin.guarded g

theorem matches_lendElement (s : Source) (a : Access) (i : UInt64) :
    Matches Eq (lendElement s a i) (lendElement s a i) := by
  refine (matches_lend s a).bind ?_
  rintro g _ rfl
  refine (matches_guarded g).bind fun xs ys hxy => ?_
  obtain ⟨e, hx, hy⟩ | ⟨x, y, hx, hy, -⟩ := eq_error_or_eq_ok_of_map (elementAt_eq hxy i)
  · simp only [hx, hy]
    exact (matches_act (.endBorrow g)).bind fun _ _ _ => matches_throw _
  · simp only [hx, hy]
    exact (matches_act (.narrow g i.toNat)).bind fun _ _ _ => matches_pure rfl

theorem matches_borrowingElement (s : Source) (a : Access) (i : UInt64) {f : Nat → Op α}
    {g : Nat → Op β} (hfg : ∀ j, Matches R (f j) (g j)) :
    Matches R (borrowingElement s a i f) (borrowingElement s a i g) := by
  refine (matches_lendElement s a i).bind ?_
  rintro j _ rfl
  exact matches_thenClean (hfg j) (Act.matches_act (.endBorrow j))

theorem matches_readElement (m : Manner) (s : Source) (i : UInt64) :
    Matches (SameBy Item.untracked) (readElement m s i) (readElement m s i) :=
  matches_inManner m (matches_inspect fun _ _ h => h.element s i)

theorem matches_writeElement (m : Manner) (s : Source) (i : UInt64) (x : Int) :
    Matches Eq (writeElement m s i x) (writeElement m s i x) := by
  refine matches_inManner m (matches_borrowingElement s .exclusive i fun g => ?_)
  exact matches_act (.put g x)

/-! ### Building and resetting -/

theorem matches_buildRange (h : HeapId) (k : Kind) (p : Plan) :
    Matches Eq (buildRange h k p) (buildRange h k.untracked p) := by
  refine (matches_granted (Act.matches_construct h k p)).bind fun i j hij => ?_
  exact matches_quiesce.bind fun _ _ _ => matches_pure hij

theorem matches_furnish (j : Nat) (x : Value) :
    Matches Eq (furnish j x) (furnish j x.untracked) := by
  cases x with
  | plain k p => exact matches_pure rfl
  | node m v f i q =>
    refine matches_borrowing (.owner j) .exclusive fun g => ?_
    exact (matches_act (.exchangeLink g 0 i)).bind fun _ _ _ => matches_act (.exchangeBack g 0 q)

theorem matches_place (h : HeapId) (x : Value) : Matches Eq (place h x) (place h x.untracked) := by
  have hconstruct : Act.Matches Eq (Act.construct h x.kind x.plan)
      (Act.construct h x.untracked.kind x.untracked.plan) := by
    cases x with
    | plain k p => exact Act.matches_construct h k p
    | node m v f i q => exact Act.matches_construct h ⟨.one, .node, m⟩ (.single (.node v f))
  refine (matches_lift hconstruct).bind ?_
  rintro r _ rfl
  cases r with
  | ok i => exact (matches_furnish i x).bind fun _ _ _ => matches_pure rfl
  | error e =>
    refine (matches_lift (Act.matches_scrap x)).bind fun _ _ _ => ?_
    exact matches_quiesce.bind fun _ _ _ => matches_throw _

theorem matches_build (h : HeapId) (k : Kind) (p : Plan) :
    Matches Eq (build h k p) (build h k.untracked p) := by
  have hshape : k.untracked.shape = k.shape := rfl
  rw [build, build, hshape]
  split_ifs
  · exact matches_buildRange h k p
  · exact matches_place h (.plain k p)

theorem matches_reset (m : Manner) (o : OwnerPlace) : Matches Eq (reset m o) (reset m o) := by
  refine (matches_inManner m (matches_permitted (Act.matches_resetAt o))).bind fun _ _ _ => ?_
  exact matches_quiesce

theorem matches_replace (o : OwnerPlace) (x : Value) :
    Matches Eq (replace o x) (replace o x.untracked) := by
  refine (matches_look (R := Eq) fun w v h => ?_).bind ?_
  · rw [h.twin.ownerAt, h.twin.heapOf]
  rintro home _ rfl
  refine (matches_run (matches_reset .insist o)).bind fun y z hyz => ?_
  cases hyz with
  | error fault => exact (matches_lift (Act.matches_scrap x)).bind fun _ _ _ => matches_throw fault
  | ok _ =>
    refine (matches_inManner .insist (matches_place _ x)).bind ?_
    rintro j _ rfl
    cases o with
    | owner i => exact matches_act (.swapOwners i j)
    | link g i => exact matches_act (.exchangeLink g i j)

theorem matches_dropOwner (i : Nat) : Matches Eq (dropOwner i) (dropOwner i) :=
  (matches_act (.discardOwner i)).bind fun _ _ _ => matches_quiesce

theorem matches_dropOwnerUnwinding (i : Nat) :
    Matches Eq (dropOwnerUnwinding i) (dropOwnerUnwinding i) :=
  (matches_act (.raise .unwinding)).bind fun _ _ _ => matches_dropOwner i

theorem matches_newOwner : Matches Eq (ExceptT.lift Act.newOwner) (ExceptT.lift Act.newOwner) :=
  matches_lift Act.matches_newOwner

theorem matches_takeOwner (i j : Nat) : Matches Eq (takeOwner i j) (takeOwner i j) := by
  refine matches_newOwner.bind ?_
  rintro t _ rfl
  refine (matches_act (.swapOwners i t)).bind fun _ _ _ => ?_
  refine (matches_act (.swapOwners j t)).bind fun _ _ _ => ?_
  exact matches_dropOwner t

/-! ### Observing handles -/

theorem matches_newSoft : Matches Eq (ExceptT.lift Act.newSoft) (ExceptT.lift Act.newSoft) :=
  matches_lift Act.matches_newSoft

theorem matches_soft (p : SoftPlace) :
    Matches (SameBy (Option.map Watch.untracked)) (look (·.soft p)) (look (·.soft p)) :=
  matches_look fun _ _ h => h.twin.soft p

theorem matches_watch (r : Option RecordId) : Matches Eq (watch r) (watch r) := by
  refine matches_newSoft.bind ?_
  rintro i _ rfl
  cases r with
  | none => exact matches_pure rfl
  | some r =>
    exact (matches_granted (Act.matches_attach r (.soft i))).bind fun _ _ _ => matches_pure rfl

theorem matches_dropSoft (p : SoftPlace) : Matches Eq (dropSoft p) (dropSoft p) :=
  (matches_act (.discardSoft p)).bind fun _ _ _ => matches_quiesce

theorem matches_takeSoft (i j : Nat) : Matches Eq (takeSoft i j) (takeSoft i j) := by
  refine matches_newSoft.bind ?_
  rintro t _ rfl
  refine (matches_act (.swapSofts (.soft i) (.soft t))).bind fun _ _ _ => ?_
  refine (matches_act (.swapSofts (.soft j) (.soft t))).bind fun _ _ _ => ?_
  exact matches_dropSoft (.soft t)

theorem matches_rewatch (r : RecordId) (p : SoftPlace) :
    Matches Eq (rewatch r p) (rewatch r p) := by
  refine (matches_inManner .insist (matches_watch (some r))).bind ?_
  rintro t _ rfl
  refine (matches_act (.swapSofts p (.soft t))).bind fun _ _ _ => ?_
  exact matches_dropSoft (.soft t)

/-! ### Nodes -/

theorem matches_link (parent child : Nat) : Matches Eq (link parent child) (link parent child) := by
  refine (matches_borrowing (R := Eq) (.owner parent) .exclusive fun g => ?_).bind ?_
  · refine matches_newOwner.bind ?_
    rintro t _ rfl
    refine (matches_act (.swapOwners child t)).bind fun _ _ _ => ?_
    refine (matches_act (.exchangeLink g 0 t)).bind fun _ _ _ => ?_
    exact matches_pure rfl
  · rintro old _ rfl
    exact matches_dropOwner old

theorem matches_unlink (parent child : Nat) :
    Matches Eq (unlink parent child) (unlink parent child) := by
  refine (matches_borrowing (R := Eq) (.owner parent) .exclusive fun g => ?_).bind ?_
  · refine matches_newOwner.bind ?_
    rintro t _ rfl
    refine (matches_act (.exchangeLink g 0 t)).bind fun _ _ _ => ?_
    refine (matches_act (.swapOwners child t)).bind fun _ _ _ => ?_
    exact matches_pure rfl
  · rintro t _ rfl
    exact matches_dropOwner t

theorem matches_observe (o s : Nat) : Matches Eq (observe o s) (observe o s) := by
  refine (matches_soft (.soft s)).bind fun x y hxy => ?_
  rw [target_eq hxy]
  refine (matches_watch _).bind ?_
  rintro t _ rfl
  have hback :
      Matches Eq (borrowing (.owner o) .exclusive fun g => act (.exchangeBack g 0 (.soft t)))
      (borrowing (.owner o) .exclusive fun g => act (.exchangeBack g 0 (.soft t))) :=
    matches_borrowing (.owner o) .exclusive fun g => matches_act (.exchangeBack g 0 (.soft t))
  refine (matches_run hback).bind fun x y hxy => ?_
  cases hxy with
  | ok _ => exact matches_dropSoft (.soft t)
  | error fault => exact (matches_dropSoft (.soft t)).bind fun _ _ _ => matches_throw fault

theorem matches_readNode (s : Nat) : Matches (SameBy Item.untracked) (readNode s) (readNode s) := by
  refine (matches_read .attempt (.soft (.soft s))).bind fun x y hxy => ?_
  exact matches_access (elementAt_eq (congrArg Prod.snd hxy :) 0)

theorem matches_watchNext (s : Nat) : Matches Eq (watchNext s) (watchNext s) := by
  refine (matches_readNode s).bind fun x y hxy => ?_
  rw [link_eq hxy]
  exact matches_watch x.link

theorem matches_watchBack (s : Nat) : Matches Eq (watchBack s) (watchBack s) := by
  refine (matches_readNode s).bind fun x y hxy => ?_
  rw [target_eq (back_eq hxy)]
  exact matches_watch _

theorem matches_resetNext (s : Nat) : Matches Eq (resetNext s) (resetNext s) := by
  exact matches_borrowing (.soft (.soft s)) .exclusive fun g => matches_reset .attempt (.link g 0)

/-! ### Positions in ranges -/

theorem matches_openScan {s t : Soft} (hst : t.map Watch.untracked = s.map Watch.untracked)
    (i : UInt64) : Matches Eq (openScan s i) (openScan t i) := by
  rw [openScan, openScan, target_eq hst]
  exact matches_inManner .insist (matches_granted (Act.matches_newScan _ i))

theorem matches_scan (i : Nat) :
    Matches (SameBy Scan.untracked) (look (·.scan i)) (look (·.scan i)) :=
  matches_look fun _ _ h => h.twin.scan i

theorem matches_copyScan (i : Nat) : Matches Eq (copyScan i) (copyScan i) := by
  refine (matches_scan i).bind fun s t hst => ?_
  rw [Scan.position_eq hst]
  exact matches_openScan (congrArg Scan.array hst :) _

theorem matches_dropScan (i : Nat) : Matches Eq (dropScan i) (dropScan i) :=
  matches_dropSoft (.scan i)

theorem matches_readScan (m : Manner) (i : Nat) (a : Aim) :
    Matches (SameBy Item.untracked) (readScan m i a) (readScan m i a) :=
  matches_inManner m (matches_inspect fun _ _ h => h.scanned i a)

theorem matches_lendScanned (a : Access) (i : Nat) (aim : Aim) :
    Matches Eq (lendScanned a i aim) (lendScanned a i aim) := by
  refine (matches_lend (.soft (.scan i)) a).bind ?_
  rintro g _ rfl
  refine (matches_guarded g).bind fun xs ys hxy => ?_
  refine (matches_scan i).bind fun s t hst => ?_
  rw [length_eq hxy, Scan.position_eq hst]
  cases s.position.aim xs.length aim with
  | ok index => exact (matches_act (.narrow g index.toNat)).bind fun _ _ _ => matches_pure rfl
  | error e => exact (matches_act (.endBorrow g)).bind fun _ _ _ => matches_throw _

theorem matches_writeScan (m : Manner) (i : Nat) (x : Int) :
    Matches Eq (writeScan m i x) (writeScan m i x) := by
  refine matches_inManner m ?_
  refine (matches_lendScanned .exclusive i .here).bind ?_
  rintro g _ rfl
  exact matches_thenClean (matches_act (.put g x)) (Act.matches_act (.endBorrow g))

theorem matches_moveScan (i : Nat) (m : Position.Move) : Matches Eq (moveScan i m) (moveScan i m) :=
  matches_act (.moveScan i m)

theorem matches_nextValue (i : Nat) :
    Matches (SameBy (Option.map Item.untracked)) (nextValue i) (nextValue i) := by
  refine (matches_scan i).bind fun s t hst => ?_
  rw [Scan.position_eq hst]
  split_ifs
  · exact matches_pure rfl
  · refine (matches_readScan .insist i .here).bind fun x y hxy => ?_
    exact (matches_moveScan i .next).bind fun _ _ _ => matches_pure (congrArg some hxy)

theorem matches_values (i : Nat) :
    Matches (SameBy (Prod.map id (List.map Item.untracked))) (values i) (values i) := by
  refine (matches_copyScan i).bind ?_
  rintro j _ rfl
  refine (matches_scan j).bind fun s t hst => ?_
  rw [Scan.position_eq hst]
  refine matches_thenClean ?_ ?_
  · split_ifs
    · exact matches_pure rfl
    · refine (matches_inManner .insist (matches_inspect fun _ _ h => h.elementsFrom j)).bind
        fun x y hxy => ?_
      exact matches_pure (congrArg (Prod.mk _) hxy)
  · exact Act.matches_letGo (.scan j)

/-! ### Walks through tables -/

theorem matches_walk (i : Nat) :
    Matches (SameBy Walk.untracked) (look (·.walk i)) (look (·.walk i)) :=
  matches_look fun _ _ h => h.twin.walk i

theorem matches_dropWalk (i : Nat) : Matches Eq (dropWalk i) (dropWalk i) := by
  refine (matches_lift (R := Eq) ?_).bind fun _ _ _ => matches_quiesce
  refine (Act.matches_act (.discardSoft (.node i))).bind fun _ _ _ => ?_
  refine Act.matches_drain.bind fun _ _ _ => ?_
  exact Act.matches_act (.discardSoft (.buckets i))

theorem matches_seek (i n : Nat) : Matches Eq (seek i n) (seek i n) := by
  induction n with
  | zero => exact matches_dropSoft (.node i)
  | succ n ih =>
    refine (matches_inspect fun _ _ h => h.bucketHead i).bind fun o p hop => ?_
    obtain rfl : p = o := hop
    cases p with
    | some r => exact matches_rewatch r (.node i)
    | none => exact (matches_act (.moveWalk i .next)).bind fun _ _ _ => ih

theorem matches_seekOn (i : Nat) : Matches Eq (seekOn i) (seekOn i) := by
  refine (matches_walk i).bind fun s t hst => ?_
  rw [Scan.position_eq (Walk.buckets_eq hst)]
  exact matches_seek i _

theorem matches_newWalk (s : Option RecordId) (i : UInt64) :
    Matches Eq (inManner .insist (granted (Act.newWalk s i)))
      (inManner .insist (granted (Act.newWalk s i))) :=
  matches_inManner .insist (matches_granted (Act.matches_newWalk s i))

theorem matches_beginWalk {s t : Soft} (hst : t.map Watch.untracked = s.map Watch.untracked) :
    Matches Eq (beginWalk s) (beginWalk t) := by
  rw [beginWalk, beginWalk, target_eq hst]
  refine (matches_newWalk _ 0).bind ?_
  rintro i _ rfl
  refine (matches_run (matches_seekOn i)).bind fun x y hxy => ?_
  cases hxy with
  | ok _ => exact matches_pure rfl
  | error fault => exact (matches_dropWalk i).bind fun _ _ _ => matches_throw fault

theorem matches_endWalk {s t : Soft} (hst : t.map Watch.untracked = s.map Watch.untracked) :
    Matches Eq (endWalk s) (endWalk t) := by
  rw [endWalk, endWalk, target_eq hst]
  exact matches_newWalk _ Word.top

theorem matches_copyWalk (i : Nat) : Matches Eq (copyWalk i) (copyWalk i) := by
  refine (matches_walk i).bind fun k j hkj => ?_
  have hnode : j.node.map Watch.record = k.node.map Watch.record :=
    target_eq (congrArg Walk.node hkj :)
  have harray : j.buckets.array.map Watch.record = k.buckets.array.map Watch.record :=
    target_eq (congrArg Scan.array (Walk.buckets_eq hkj) :)
  rw [hnode, harray, Scan.position_eq (Walk.buckets_eq hkj)]
  refine (matches_inManner .insist (matches_watch _)).bind ?_
  rintro t _ rfl
  refine (matches_run (matches_newWalk _ _)).bind fun x y hxy => ?_
  cases hxy with
  | ok hij =>
    subst hij
    exact (matches_act (.swapSofts (.node _) (.soft t))).bind fun _ _ _ => matches_pure rfl
  | error fault => exact (matches_dropSoft (.soft t)).bind fun _ _ _ => matches_throw fault

theorem matches_stepWalk (i : Nat) : Matches Eq (stepWalk i) (stepWalk i) := by
  refine (matches_walk i).bind fun k j hkj => ?_
  have hnone : j.node.isNone = k.node.isNone := isNone_eq (congrArg Walk.node hkj :)
  rw [hnone]
  split_ifs
  · exact matches_pure rfl
  · refine (matches_inspect fun _ _ h => h.walked i).bind fun x y hxy => ?_
    rw [link_eq hxy]
    cases x.link with
    | some r => exact matches_rewatch r (.node i)
    | none => exact (matches_act (.moveWalk i .next)).bind fun _ _ _ => matches_seekOn i

theorem matches_nextNode (i : Nat) : Matches Eq (nextNode i) (nextNode i) := by
  refine (matches_walk i).bind fun k j hkj => ?_
  obtain ⟨hk, hj⟩ | ⟨x, y, hk, hj, hxy⟩ := eq_none_or_eq_some_of_map (congrArg Walk.node hkj :)
  · rw [hk, hj]
    exact matches_pure rfl
  · have hrecord : y.record = x.record := (congrArg Watch.record hxy :)
    rw [hk, hj]
    simp only [hrecord]
    refine (matches_inManner .insist (matches_watch _)).bind ?_
    rintro t _ rfl
    refine (matches_run (matches_inManner .insist (matches_stepWalk i))).bind fun x y hxy => ?_
    cases hxy with
    | ok _ => exact matches_pure rfl
    | error fault => exact (matches_dropSoft (.soft t)).bind fun _ _ _ => matches_throw fault

theorem matches_nextKey (m : Manner) (i : Nat) :
    Matches (SameBy (Option.map Item.untracked)) (nextKey m i) (nextKey m i) := by
  refine (matches_nextNode i).bind ?_
  rintro o _ rfl
  cases o with
  | none => exact matches_pure rfl
  | some t =>
    have hread := matches_thenClean (matches_read m (.soft (.soft t))) (Act.matches_letGo (.soft t))
    refine hread.bind fun x y hxy => ?_
    have hitems : y.2.map Item.untracked = x.2.map Item.untracked := congrArg Prod.snd hxy
    refine matches_pure ?_
    rw [SameBy, ← List.head?_map, ← List.head?_map, hitems]

theorem matches_keysFor (i n : Nat) :
    Matches (SameBy (List.map Item.untracked)) (keysFor i n) (keysFor i n) := by
  induction n with
  | zero => exact matches_pure rfl
  | succ n ih =>
    refine (matches_nextKey .insist i).bind fun x y hxy => ?_
    obtain ⟨rfl, rfl⟩ | ⟨a, b, rfl, rfl, hab⟩ := eq_none_or_eq_some_of_map hxy
    · exact matches_pure rfl
    · refine ih.bind fun xs ys hs => matches_pure ?_
      rw [SameBy, List.map_cons, List.map_cons, hab, hs]

theorem matches_keys (i : Nat) : Matches (SameBy (List.map Item.untracked)) (keys i) (keys i) := by
  refine (matches_copyWalk i).bind ?_
  rintro j _ rfl
  refine matches_thenClean ?_ ?_
  · refine (matches_look (R := Eq) fun w v h => congrArg (· + 1) h.twin.size.symm).bind ?_
    rintro n _ rfl
    exact matches_keysFor j n
  · refine (Act.matches_act (.discardSoft (.node j))).bind fun _ _ _ => ?_
    refine Act.matches_drain.bind fun _ _ _ => ?_
    exact Act.matches_letGo (.buckets j)

/-! ### Tables -/

theorem matches_takeLink (g i : Nat) : Matches Eq (takeLink g i) (takeLink g i) := by
  refine matches_newOwner.bind ?_
  rintro t _ rfl
  exact (matches_act (.exchangeLink g i t)).bind fun _ _ _ => matches_pure rfl

theorem matches_chain (h : HeapId) (k : Kind) (key : Int64) (t : Nat) :
    Matches Eq (chain h k key t) (chain h k.untracked key t) := by
  refine (matches_run (matches_inManner .insist (matches_place h (.plain k _)))).bind
    fun x y hxy => ?_
  cases hxy with
  | error fault => exact (matches_dropOwner t).bind fun _ _ _ => matches_throw fault
  | ok hij =>
    subst hij
    refine (matches_borrowing (R := Eq) (.owner _) .exclusive fun g => ?_).bind fun _ _ _ =>
      matches_pure rfl
    exact matches_act (.exchangeLink g 0 t)

theorem MatchesAt.look {γ δ : Type} {S : γ → δ → Prop} {f : World → α} {g : World → β}
    {c : α → Op γ} {d : β → Op δ} (h : MatchesAt S (c (f w)) (d (g v)) w v) :
    MatchesAt S (Op.look f >>= c) (Op.look g >>= d) w v := h

/-- An owner that lends an element holds a record. -/
theorem exists_record_of_lendElement {t g : Nat} {a : Access} {i : UInt64} {u : World}
    (h : (lendElement (.owner t) a i).run.run w = (.ok g, u)) :
    ∃ r rec, w.owner t = some r ∧ w.records[r]? = some rec := by
  rw [lendElement, run_bind, permitted, run_bind, run_lift] at h
  cases ho : w.owner t with
  | none =>
    have hlend : ((Act.lend (.owner t) a).run w).1 = .error .null := by
      simp only [Act.lend, Act.does, World.lend, World.reach, ho, World.held]
    rw [hlend] at h
    cases h
  | some r =>
    cases hr : w.records[r]? with
    | some rec => exact ⟨r, rec, rfl, hr⟩
    | none =>
      have hlend : ((Act.lend (.owner t) a).run w).1 = .error .gone := by
        simp only [Act.lend, Act.does, World.lend, World.reach, ho, World.held, hr]
      rw [hlend] at h
      cases h

/-- The entries of a table are of its kind. Its record is there, since the table lends a
bucket. -/
theorem matches_insertKey (t : Nat) (key : Int64) :
    Matches Eq (insertKey t key) (insertKey t key) := by
  intro w v h
  refine MatchesAt.look (MatchesAt.look ?_)
  have hlength : v.ownerLength (v.owner t) = w.ownerLength (w.owner t) := by
    rw [h.twin.owner]
    exact h.twin.rangeLength _
  rw [hlength, h.twin.owner]
  refine (matches_lendElement (.owner t) .exclusive _ w v h).bind h fun g j w' v' hrun h' hg => ?_
  subst hg
  obtain ⟨r, rec, ho, hr⟩ := exists_record_of_lendElement hrun
  have hreaches : w.Reaches w' := by
    have hw := (lendElement (.owner t) .exclusive
      (bucketOf key (w.ownerLength (w.owner t)))).run.lawful w
    rwa [hrun] at hw
  obtain ⟨x, hx, -⟩ := h.left.sound.later hreaches hr
  obtain ⟨hnone, -⟩ | ⟨x', y, hx', hy, hxy⟩ := h'.twin.record_cases r
  · rw [hx] at hnone
    cases hnone
  refine MatchesAt.thenClean h' ?_ (Act.matches_act (.endBorrow g))
  refine MatchesAt.look (MatchesAt.look ?_)
  have hkind :
      (((w.owner t).bind (v'.records[·]?)).map Record.kind).getD ⟨.array, .bucket, .tracked⟩ =
      x'.kind.untracked := by
    rw [ho, Option.bind_some, hy, Option.map_some, Option.getD_some, hxy.kind]
  have hkind' :
      (((w.owner t).bind (w'.records[·]?)).map Record.kind).getD ⟨.array, .bucket, .tracked⟩ =
      x'.kind := by
    rw [ho, Option.bind_some, hx', Option.map_some, Option.getD_some]
  rw [hkind, hkind', h'.twin.heapOf]
  refine Matches.bind (matches_takeLink g _) ?_ w' v' h'
  rintro old _ rfl
  refine (matches_chain _ x'.kind.entries key old).bind ?_
  rintro e _ rfl
  exact matches_act (.exchangeLink g _ e)

theorem matches_clearBucket (t : Nat) (b : UInt64) :
    Matches Eq (clearBucket t b) (clearBucket t b) := by
  exact matches_borrowingElement (.owner t) .exclusive b fun g =>
    matches_reset .attempt (.link g b.toNat)

theorem matches_takeTail (head : Nat) : Matches Eq (takeTail head) (takeTail head) :=
  matches_borrowing (.owner head) .exclusive fun g => matches_takeLink g 0

theorem matches_owner (i : Nat) : Matches Eq (look (·.owner i)) (look (·.owner i)) :=
  matches_look fun _ _ h => (h.twin.owner i).symm

theorem matches_popBucket (t : Nat) (b : UInt64) : Matches Eq (popBucket t b) (popBucket t b) := by
  refine (matches_borrowingElement (R := Eq) (.owner t) .exclusive b fun g => ?_).bind ?_
  · refine (matches_takeLink g b.toNat).bind ?_
    rintro head _ rfl
    refine (matches_owner head).bind ?_
    rintro o _ rfl
    split_ifs
    · exact matches_pure rfl
    · refine (matches_run (matches_takeTail head)).bind fun x y hxy => ?_
      cases hxy with
      | ok hij =>
        subst hij
        exact (matches_act (.exchangeLink g b.toNat _)).bind fun _ _ _ => matches_pure rfl
      | error fault =>
        exact (matches_act (.exchangeLink g b.toNat head)).bind fun _ _ _ => matches_throw fault
  · rintro old _ rfl
    exact matches_dropOwner old

theorem matches_cutBucket (t : Nat) (b : UInt64) : Matches Eq (cutBucket t b) (cutBucket t b) := by
  refine (matches_borrowingElement (R := Eq) (.owner t) .exclusive b fun g => ?_).bind ?_
  · refine (matches_takeLink g b.toNat).bind ?_
    rintro head _ rfl
    refine (matches_run (matches_takeTail head)).bind fun x y hxy => ?_
    refine (matches_act (.exchangeLink g b.toNat head)).bind fun _ _ _ => ?_
    cases hxy with
    | ok hij => exact matches_pure hij
    | error fault => exact matches_throw fault
  · rintro old _ rfl
    exact matches_dropOwner old

end Op

end Custody
