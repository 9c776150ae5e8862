import Custody.Proofs.Positions
import Custody.Proofs.Walks.Handles

/-! How one walk changes while everything else that a program holds stays as it is. -/

namespace Custody

namespace World

variable {u v w : World} {i j : Nat} {r t : RecordId}

/-- Nothing differs but walk `i`, and variables that were added. -/
structure Around (i : Nat) (w v : World) : Prop where
  alike : w.Alike v
  owners : v.owners = w.owners
  softs : ∀ (n : Nat) (s : Soft), w.softs[n]? = some s → v.softs[n]? = some s
  scans : v.scans = w.scans
  walks : ∀ (j : Nat) (k : Walk), j ≠ i → w.walks[j]? = some k → v.walks[j]? = some k

theorem Around.refl (i : Nat) (w : World) : Around i w w :=
  ⟨.refl w, rfl, fun _ _ h => h, rfl, fun _ _ _ h => h⟩

theorem Around.trans (h : Around i u v) (k : Around i v w) : Around i u w where
  alike := h.alike.trans k.alike
  owners := k.owners.trans h.owners
  softs n s hn := k.softs n s (h.softs n s hn)
  scans := k.scans.trans h.scans
  walks j c hj hc := k.walks j c hj (h.walks j c hj hc)

/-- A handle in a new variable. -/
theorem around_pushSoft {s : Soft} (ha : w.Alike v)
    (hv : v.hands = { w with softs := w.softs.push s }.hands) : Around i w v := by
  simp only [hands, Prod.mk.injEq] at hv
  obtain ⟨howners, hsofts, hscans, hwalks, -⟩ := hv
  exact ⟨ha, howners, fun n s hn => hsofts ▸ getElem?_push_of_some hn, hscans,
    fun j k _ hj => hwalks ▸ hj⟩

theorem unwinding_swapSofts (p q : SoftPlace) : (w.swapSofts p q).unwinding = w.unwinding := by
  unfold swapSofts
  split
  · split_ifs
    · cases p <;> cases q <;> rfl
    · rfl
  · rfl

/-- The walk's handle changes places with one in a new variable. -/
theorem Around.swap (h : Around i w v) {n : Nat} (hn : w.softs[n]? = none) {k : Walk} {s : Soft}
    (hk : v.walks[i]? = some k) (hs : v.softs[n]? = some s)
    (hi : v.isLent (.soft (.node i)) = false) (hl : v.isLent (.soft (.soft n)) = false) :
    Around i w (v.swapSofts (.node i) (.soft n)) ∧
      (v.swapSofts (.node i) (.soft n)).walks[i]? = some { k with node := s } ∧
      (v.swapSofts (.node i) (.soft n)).softs[n]? = some k.node := by
  have hswap :
      v.swapSofts (.node i) (.soft n) = (v.setSoft (.node i) s).setSoft (.soft n) k.node := by
    have hnode : v.soft? (.node i) = some k.node := by rw [soft?, hk, Option.map_some]
    have hsoft : v.soft? (.soft n) = some s := hs
    rw [swapSofts, hnode, hsoft]
    simp [hi, hl, SoftPlace.isLoose]
  have hsofts : (v.swapSofts (.node i) (.soft n)).softs = v.softs.setIfInBounds n k.node := by
    rw [hswap]
    rfl
  have hwalks :
      (v.swapSofts (.node i) (.soft n)).walks = v.walks.modify i fun k => { k with node := s } := by
    rw [hswap]
    rfl
  refine ⟨⟨h.alike.trans (hswap ▸ ⟨rfl, rfl⟩), ?_, fun m x hm => ?_, ?_, fun j c hj hc => ?_⟩, ?_,
    ?_⟩
  · rw [hswap]
    exact h.owners
  · have hne : n ≠ m := by
      rintro rfl
      cases hn.symm.trans hm
    rw [hsofts, Array.getElem?_setIfInBounds_ne hne, h.softs m x hm]
  · rw [hswap]
    exact h.scans
  · rw [hwalks, Array.getElem?_modify, if_neg hj.symm, h.walks j c hj hc]
  · rw [hwalks, Array.getElem?_modify, if_pos rfl, hk]
    rfl
  · rw [hsofts, Array.getElem?_setIfInBounds_self_of_lt (Array.getElem?_eq_some_iff.mp hs).1]

/-- A new variable is emptied. -/
theorem Around.dropSoft (h : Around i w v) {n : Nat} (hn : w.softs[n]? = none) (ha : v.Alike u)
    (hu : u.hands = (v.vacate (.soft n)).hands) : Around i w u := by
  simp only [hands, Prod.mk.injEq] at hu
  obtain ⟨howners, hsofts, hscans, hwalks, -⟩ := hu
  refine ⟨h.alike.trans ha, howners.trans h.owners, fun m s hm => ?_, hscans.trans h.scans,
    fun j k hj hk => hwalks ▸ h.walks j k hj hk⟩
  have hne : n ≠ m := by
    rintro rfl
    cases hn.symm.trans hm
  rw [hsofts]
  change (v.softs.setIfInBounds n none)[m]? = some s
  rw [Array.getElem?_setIfInBounds_ne hne, h.softs m s hm]

end World

namespace Op

open World

variable {α : Type} {u v w : World} {i : Nat} {r t : RecordId} {k : Walk}

theorem run_inspect {f : World → Except AccessRefusal α} {x : α} (h : f w = .ok x) :
    (inspect f).run.run w = (.ok x, w) := by
  rw [run_inspect_eq, h]

theorem attains_rewatch (h : w.Reachable) (hc : w.IsCalm) (ha : w.isAlive r = true)
    (hk : w.walks[i]? = some k) (hl : w.isLent (.soft (.node i)) = false)
    (hs : ∀ j, k.node = some j → w.isAlive j.record = true) :
    (rewatch r (.node i)).Attains w fun _ v =>
      v.IsCalm ∧ Around i w v ∧
        ∃ j : Watch, j.record = r ∧ v.walks[i]? = some { k with node := some j } := by
  refine (attains_watch h hc ha).bind fun n u hu ⟨hn, halike, hcalm, j, hj, hhands⟩ => ?_
  have hnew : w.softs[n]? = none := by simp [hn]
  have haround : Around i w u := around_pushSoft halike hhands
  have hul (p : SoftPlace) (hp : w.isLent (.soft p) = false) : u.isLent (.soft p) = false := by
    rw [halike.isLent, hp]
  have husoft : u.softs[n]? = some (some j) := by simp [softs_of_hands hhands, hn]
  have huwalk : u.walks[i]? = some k := by rw [walks_of_hands hhands, hk]
  have hlent : u.isLent (.soft (.soft n)) = false := hul _ (h.tended.not_isLent hnew)
  obtain ⟨haround, hwalk, hsoft⟩ := haround.swap hnew huwalk husoft (hul _ hl) hlent
  let x := u.swapSofts (.node i) (.soft n)
  have hx : x.Reachable := (h.reaches hu).reaches (.once (.swapSofts (.node i) (.soft n)))
  have hkeeps := keeps_run (w := u) (a := .swapSofts (.node i) (.soft n)) trivial
  have hxcalm : x.IsCalm :=
    ⟨hkeeps.pending.trans hcalm.pending, (unwinding_swapSofts _ _).trans hcalm.unwinding⟩
  have hxlent : x.isLent (.soft (.soft n)) = false := by
    rw [haround.alike.isLent, ← halike.isLent, hlent]
  refine .after (run_act _ u) ?_
  refine (attains_dropSoft hx hxcalm hxlent fun m hm => ?_).mono ?_
  · rw [haround.alike.isAlive]
    refine hs m (Eq.trans ?_ hm)
    rw [soft, soft?, hsoft, Option.getD_some]
  · rintro - v - ⟨hxv, hvcalm, hvhands⟩
    exact ⟨hvcalm, haround.dropSoft hnew hxv hvhands, j, hj,
      by rw [walks_of_hands hvhands]; exact hwalk⟩

theorem attains_clearNode (h : w.Reachable) (hc : w.IsCalm) (hk : w.walks[i]? = some k)
    (hl : w.isLent (.soft (.node i)) = false)
    (hs : ∀ j, k.node = some j → w.isAlive j.record = true) :
    (clearNode i).Attains w fun _ v =>
      v.IsCalm ∧ Around i w v ∧ v.walks[i]? = some { k with node := none } := by
  have hsoft : w.soft (.node i) = k.node := by
    rw [soft, soft?, hk]
    rfl
  refine (attains_dropSoft h hc hl fun j hj => hs j (hsoft ▸ hj)).mono ?_
  rintro - v - ⟨halike, hcalm, hhands⟩
  simp only [hands, Prod.mk.injEq] at hhands
  obtain ⟨howners, hsofts, hscans, hwalks, -⟩ := hhands
  have hwalks : v.walks = w.walks.modify i fun k => { k with node := none } := hwalks
  refine ⟨hcalm, ⟨halike, howners, fun n s hn => hsofts ▸ hn, hscans, fun m c hm hc => ?_⟩, ?_⟩
  · rw [hwalks, Array.getElem?_modify, if_neg hm.symm, hc]
  · rw [hwalks, Array.getElem?_modify, if_pos rfl, hk]
    rfl

end Op

namespace World

variable {v w : World} {i : Nat} {r t : RecordId} {k : Walk} {items : List Item} {item : Item}

theorem walk_eq (h : w.walks[i]? = some k) : w.walk i = k := by rw [walk, h, Option.getD_some]

theorem around_moveWalk (m : Position.Move) : Around i w (w.moveWalk i m) := by
  refine ⟨⟨rfl, rfl⟩, rfl, fun _ _ h => h, rfl, fun j k hj hk => ?_⟩
  rw [moveWalk, Array.getElem?_modify, if_neg hj.symm, hk]

theorem walks_moveWalk (hk : w.walks[i]? = some k) (m : Position.Move) :
    (w.moveWalk i m).walks[i]? =
      some { k with buckets := { k.buckets with position := k.buckets.position.move m } } := by
  rw [moveWalk, Array.getElem?_modify, if_pos rfl, hk]
  rfl

/-- An alive object can be looked at through a handle in a variable. -/
theorem Sound.inspect_soft (h : w.Sound) {p : SoftPlace} {j : Watch}
    (hp : w.soft? p = some (some j)) {a : Access} (hopen : w.open? j.record a = .ok items) :
    w.inspect (.soft p) a = .ok (j.record, items) := by
  have hwatched : w.watched (some j) = .ok j.record :=
    h.watched_of_alive (watches_mem_stakes.mpr (.inl ⟨p, hp⟩)) (open?_eq_ok hopen).1
  simp only [inspect, reach, soft, hp, Option.getD_some, hwatched]
  change (w.open? j.record a >>= fun items => _) = _
  rw [hopen]
  rfl

/-- The bucket at a walk's position. -/
theorem Reachable.bucketHead_eq (h : w.Reachable) (hk : w.walks[i]? = some k)
    (ht : k.buckets.array.map Watch.record = some t) (hopen : w.open? t .shared = .ok items)
    (hi : items[k.buckets.position.index.toNat]? = some item) : w.bucketHead i = .ok item.link := by
  obtain ⟨j, hj, rfl⟩ := Option.map_eq_some_iff.mp ht
  have hinspect := h.sound.inspect_soft (p := .buckets i) (by simp [soft?, hk, hj]) hopen
  obtain ⟨rec, hrec, hobj⟩ := Option.bind_eq_some_iff.mp (open?_eq_ok hopen).2
  have hmeasured := h.measured hrec
  have haim : k.buckets.position.aim items.length .here = .ok k.buckets.position.index :=
    Position.aim_here (List.getElem?_eq_some_iff.mp hi).1
      (hmeasured.length items hobj ▸ hmeasured.word)
  simp only [bucketHead, hinspect, walk_eq hk, haim, elementAt, hi, bind, Except.bind, pure,
    Except.pure]

/-- The entry that a walk watches. -/
theorem Reachable.walked_eq (h : w.Reachable) (hk : w.walks[i]? = some k)
    (hn : k.node.map Watch.record = some r) (hopen : w.open? r .shared = .ok [item]) :
    w.walked i = .ok item := by
  obtain ⟨j, hj, rfl⟩ := Option.map_eq_some_iff.mp hn
  have hinspect := h.sound.inspect_soft (p := .node i) (by simp [soft?, hk, hj]) hopen
  simp only [walked, hinspect, elementAt, bind, Except.bind]
  rfl

end World

end Custody
