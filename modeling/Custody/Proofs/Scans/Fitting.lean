import Custody.Proofs.Ledger.Sources
import Custody.Proofs.Positions

/-! The lengths that scans measure against. A scan's handle never leaves the scan, and the
number of elements of a record never changes. So in every reachable world, in the midst of
destruction too, the position of a scan is one in the range that its handle watches, or
watched before it was destroyed. Main result: `Reachable.fitted`. -/

namespace Custody

namespace World

variable {v w : World} {i : Nat} {c : Scan}

/-- A scan's position is measured against the length of the range that it is of. -/
def Fitted (w : World) (c : Scan) : Prop :=
  c.position.length.toNat = w.rangeLength (c.array.map Watch.record)

/-! ### One action -/

/-- What became of a scan: it is where it was, or went elsewhere in its range, or was let
go, or it is new, made from a handle in a world with the same records. -/
inductive ScanStep (w v : World) (i : Nat) (c : Scan) : Prop where
  | kept (old : Scan) : w.scans[i]? = some old → c.array = old.array →
    c.position.length = old.position.length → ScanStep w v i c
  | dropped : c = ⟨none, .origin⟩ → ScanStep w v i c
  | opened (u : World) (s : Soft) (j : UInt64) : u.records = v.records → c = ⟨s, u.positionIn s j⟩ →
    ScanStep w v i c

theorem ScanStep.of_scans (h : v.scans = w.scans) (hc : v.scans[i]? = some c) : ScanStep w v i c :=
  .kept c (h ▸ hc) rfl rfl

theorem scans_setSoft {p : SoftPlace} (hp : p.isLoose = true) (s : Soft) :
    (w.setSoft p s).scans = w.scans := by
  cases p with
  | scan | buckets => cases hp
  | soft | node => rfl

theorem scans_vacate {p : SoftPlace} (hp : p.isLoose = true) : (w.vacate p).scans = w.scans := by
  cases p with
  | scan | buckets => cases hp
  | soft | node => rfl

/-- A new scan comes behind those there are, if it can be registered. -/
theorem scans_newScan (w : World) (r : Option RecordId) (j : UInt64) :
    (w.newScan r j).2.scans = w.scans ∨ ∃ d, (w.newScan r j).2.scans = w.scans.push d ∧
      (d = ⟨none, .origin⟩ ∨
        ∃ (u : World) (s : Soft), u.records = (w.newScan r j).2.records ∧
          d = ⟨s, u.positionIn s j⟩) := by
  cases r with
  | none => exact .inr ⟨_, rfl, .inl rfl⟩
  | some r =>
    have hhands := scans_of_hands (hands_watch (w := w) r)
    simp only [newScan]
    split
    · rename_i e v hv
      rw [hv] at hhands
      exact .inl hhands
    · rename_i s v hv
      rw [hv] at hhands
      refine .inr ⟨⟨s, v.positionIn s j⟩, ?_, .inr ⟨v, s, rfl, rfl⟩⟩
      exact congrArg (Array.push · _) hhands

theorem scanStep_newScan (r : Option RecordId) (j : UInt64)
    (hc : (w.newScan r j).2.scans[i]? = some c) : ScanStep w (w.newScan r j).2 i c := by
  obtain hsame | ⟨d, hpush, hd⟩ := w.scans_newScan r j
  · exact .of_scans hsame hc
  · rw [hpush, Array.getElem?_push] at hc
    split_ifs at hc
    · obtain rfl := Option.some.inj hc
      obtain hd | ⟨u, s, hu, hd⟩ := hd
      · exact .dropped hd
      · exact .opened u s j hu hd
    · exact .kept c hc rfl rfl

theorem scanStep_moveScan (k : Nat) (m : Position.Move) (hc : (w.moveScan k m).scans[i]? = some c) :
    ScanStep w (w.moveScan k m) i c := by
  simp only [moveScan, Array.getElem?_modify] at hc
  split_ifs at hc
  · obtain ⟨old, hold, rfl⟩ := Option.map_eq_some_iff.mp hc
    exact .kept old hold rfl (Position.length_move _ m)
  · exact .kept c hc rfl rfl

theorem scanStep_discardSoft (p : SoftPlace) (hc : (w.discardSoft p).scans[i]? = some c) :
    ScanStep w (w.discardSoft p) i c := by
  unfold discardSoft at hc ⊢
  split_ifs at hc ⊢
  · exact .kept c hc rfl rfl
  · cases p with
    | scan k =>
      simp only [schedule, vacate, Array.getElem?_modify] at hc
      split_ifs at hc
      · obtain ⟨old, -, rfl⟩ := Option.map_eq_some_iff.mp hc
        exact .dropped rfl
      · exact .kept c hc rfl rfl
    | soft | node | buckets => exact .kept c hc rfl rfl

/-- The scans that other actions leave alone. -/
theorem scans_attach (r : RecordId) (p : SoftPlace) : (w.attach r p).2.scans = w.scans := by
  have hwatch := scans_of_hands (hands_watch (w := w) r)
  unfold attach
  split_ifs with hp
  · split
    · rename_i e v hv
      rwa [hv] at hwatch
    · rename_i s v hv
      rw [hv] at hwatch
      exact (scans_setSoft (by simp_all) s).trans hwatch
  · rfl

theorem scans_exchangeBack (g j : Nat) (p : SoftPlace) :
    (w.exchangeBack g j p).scans = w.scans := by
  unfold exchangeBack
  split
  · split
    · split_ifs with hb
      · exact scans_setSoft (by simp_all) _
      · rfl
    · rfl
  · rfl

theorem scans_swapSofts (p q : SoftPlace) : (w.swapSofts p q).scans = w.scans := by
  unfold swapSofts
  split
  · split_ifs with hl
    · simp only [Bool.and_eq_true] at hl
      exact (scans_setSoft hl.1.1.2 _).trans (scans_setSoft hl.1.1.1 _)
    · rfl
  · rfl

theorem scans_scrapNode (x : Int64) (f : Finalizer) (j : Nat) (p : SoftPlace) :
    (w.scrapNode x f j p).scans = w.scans := by
  unfold scrapNode
  split_ifs with hp
  · exact scans_vacate (w := w.setOwner j none) (by simp_all)
  · rfl

theorem scans_construct (heap : HeapId) (k : Kind) (p : Plan) :
    (w.construct heap k p).2.scans = w.scans := by
  rw [construct_eq]
  split
  · rfl
  · split
    · rfl
    · rename_i b v hv
      obtain ⟨arena, -, rfl⟩ := allocate_eq_ok hv
      split
      · rw [scans_of_hands (hands_raise _)]
        rfl
      · rfl

/-- The actions that make scans, move them or let them go. -/
def handlesScans : Action → Bool
  | .newScan _ _ | .moveScan _ _ | .discardSoft _ => true
  | _ => false

theorem scans_run {a : Action} (h : handlesScans a = false) : (a.run w).scans = w.scans := by
  cases a with
  | newScan | moveScan | discardSoft => cases h
  | attach r p => exact scans_attach r p
  | exchangeBack g j p => exact scans_exchangeBack g j p
  | swapSofts p q => exact scans_swapSofts p q
  | construct heap k p => exact scans_construct heap k p
  | scrapNode x f j p => exact scans_scrapNode x f j p
  | tick => exact scans_of_hands hands_tick
  | raise p => exact scans_of_hands (hands_raise p)
  | newWalk r j =>
    exact newWalk_frame (·.scans = w.scans) r j rfl (fun r => scans_of_hands (hands_watch r))
      fun _ _ hv => hv
  | allot heap l n =>
    simp only [Action.run, allot]
    split
    · rfl
    · rename_i b v hv
      obtain ⟨arena, -, rfl⟩ := allocate_eq_ok hv
      rfl
  | resetOwner | resetLink =>
    exact run_of_resets (·.scans = w.scans) rfl rfl (fun _ => rfl) (fun _ _ _ _ _ _ => rfl)
      fun _ r hu => (scans_of_hands (hands_demolish r)).trans hu
  | openHeap | setDetecting | giveBack | put | exchangeLink | swapOwners | discardOwner | lend
  | duplicate | endBorrow | recover =>
    simp only [Action.run, openHeap, setDetecting, giveBack, put, exchangeLink, swapOwners,
      discardOwner, lend, duplicate, endBorrow, recover]
    (repeat' split) <;> rfl
  | fill | reclaim | newOwner | newSoft | scrap | narrow | moveWalk | clearLog => rfl

theorem scanStep_run (a : Action) (hc : (a.run w).scans[i]? = some c) :
    ScanStep w (a.run w) i c := by
  cases a with
  | newScan r j => exact scanStep_newScan r j hc
  | moveScan k m => exact scanStep_moveScan k m hc
  | discardSoft p => exact scanStep_discardSoft p hc
  | _ => exact .of_scans (scans_run rfl) hc

/-! ### Scans left alone -/

/-- Action `a` neither moves scan `i` nor lets it go. -/
def Leaves (i : Nat) (a : Action) : Prop := (∀ m, a ≠ .moveScan i m) ∧ a ≠ .discardSoft (.scan i)

theorem scans_run_of_leaves {a : Action} (ha : Leaves i a) (hi : w.scans[i]? = some c) :
    (a.run w).scans[i]? = some c := by
  cases a with
  | newScan r j =>
    change (w.newScan r j).2.scans[i]? = some c
    obtain hsame | ⟨d, hpush, -⟩ := w.scans_newScan r j
    · exact hsame ▸ hi
    · exact hpush ▸ getElem?_push_of_some hi
  | moveScan k m =>
    have hk : k ≠ i := fun hk => ha.1 m (hk ▸ rfl)
    change (w.moveScan k m).scans[i]? = some c
    rw [moveScan, Array.getElem?_modify, if_neg hk]
    exact hi
  | discardSoft p =>
    change (w.discardSoft p).scans[i]? = some c
    unfold discardSoft
    split_ifs
    · exact hi
    · cases p with
      | scan k =>
        have hk : k ≠ i := fun hk => ha.2 (hk ▸ rfl)
        simp only [schedule, vacate]
        rw [Array.getElem?_modify, if_neg hk]
        exact hi
      | soft | node | buckets => exact hi
  | _ =>
    rw [scans_run rfl]
    exact hi

/-- A scan stays as it is through all that is done elsewhere. -/
theorem scans_foldl_of_leaves {as : List Action} (has : ∀ a ∈ as, Leaves i a)
    (hi : w.scans[i]? = some c) : (as.foldl Action.run w).scans[i]? = some c := by
  induction as generalizing w with
  | nil => exact hi
  | cons a as ih =>
    obtain ⟨ha, has⟩ := List.forall_mem_cons.mp has
    exact ih has (scans_run_of_leaves ha hi)

theorem scan_foldl_of_leaves {as : List Action} (has : ∀ a ∈ as, Leaves i a)
    (hi : i < w.scans.size) : (as.foldl Action.run w).scan i = w.scan i := by
  have hc : w.scans[i]? = some w.scans[i] := Array.getElem?_eq_getElem hi
  rw [scan, scan, hc, scans_foldl_of_leaves has hc]

/-! ### Every reachable world -/

theorem rangeLength_eq_of_later {k : Watch} {rec new : Record}
    (hr : w.records[k.record]? = some rec) (hn : v.records[k.record]? = some new)
    (h : rec.Later new) : v.rangeLength (some k.record) = w.rangeLength (some k.record) := by
  simp only [rangeLength, hr, hn, Option.map_some, Option.getD_some, h.length]

/-- The range of a scan is as long as it was. -/
theorem Sound.rangeLength_run (h : w.Sound) (a : Action) (hc : w.scans[i]? = some c) :
    (a.run w).rangeLength (c.array.map Watch.record) =
      w.rangeLength (c.array.map Watch.record) := by
  cases hk : c.array with
  | none => rfl
  | some k =>
    have hheld : .watches k ∈ w.stakes :=
      watches_mem_stakes.mpr (.inl ⟨.scan i, by rw [soft?, hc, Option.map_some, hk]⟩)
    obtain ⟨rec, hr⟩ := h.record_of_mem hheld rfl
    obtain ⟨new, hn, hlater⟩ := h.later (.once a) hr
    exact rangeLength_eq_of_later hr hn hlater

theorem Reachable.rangeLength_lt (h : w.Reachable) (r : Option RecordId) :
    w.rangeLength r < UInt64.size := by
  cases r with
  | none => simp [rangeLength, UInt64.size]
  | some r =>
    cases hr : w.records[r]? with
    | none => simp [rangeLength, hr, UInt64.size]
    | some rec => simpa [rangeLength, hr] using (h.measured hr).word

theorem Reachable.fitted_run (h : w.Reachable)
    (hw : ∀ (i : Nat) (c : Scan), w.scans[i]? = some c → w.Fitted c) (a : Action)
    (hc : (a.run w).scans[i]? = some c) : (a.run w).Fitted c := by
  cases scanStep_run a hc with
  | kept old hold harray hlength =>
    have hfit := hw i old hold
    rw [Fitted, harray, hlength, h.sound.rangeLength_run a hold]
    exact hfit
  | dropped hd =>
    subst hd
    rfl
  | opened u s j hu hd =>
    have hlength :
        (a.run w).rangeLength (s.map Watch.record) = u.rangeLength (s.map Watch.record) := by
      cases s with
      | none => rfl
      | some k => simp only [Option.map_some, rangeLength, hu]
    have hlt := (h.reaches (.once a)).rangeLength_lt (s.map Watch.record)
    rw [hlength] at hlt
    subst hd
    rw [Fitted, hlength, positionIn, Position.length_clamped, UInt64.toNat_ofNat_of_lt' hlt]

/-- The position of a scan lies in the range that its handle watches or watched. -/
theorem Reachable.fitted (h : w.Reachable) (hc : w.scans[i]? = some c) : w.Fitted c := by
  obtain ⟨grant, h⟩ := h
  induction h generalizing i c with
  | refl => simp [start] at hc
  | step a hv ih => exact Reachable.fitted_run ⟨grant, hv⟩ (fun _ _ => ih) a hc

/-- A scan that is not there is at the origin, of nothing. -/
theorem Reachable.fitted_scan (h : w.Reachable) (i : Nat) : w.Fitted (w.scan i) := by
  cases hi : w.scans[i]? with
  | none =>
    rw [scan, hi]
    rfl
  | some c =>
    rw [scan, hi]
    exact h.fitted hi

end World

end Custody
