import Custody.Proofs.Walks.Traversal

/-! Steps of a walk that are refused. A walk cannot step on if its entry cannot be read; then
nothing changes. It cannot step on either if its entry is the last one of its chain and the
table cannot be read. It has moved on to the next bucket by then, and it does not move back. -/

namespace Custody

namespace World

variable {w : World} {i m : Nat} {k : Walk}

/-- Walk `i` is `n` buckets on, with its node as it was. -/
def skip (w : World) (i : Nat) : Nat → World
  | 0 => w
  | n + 1 => (w.moveWalk i .next).skip i n

/-- With that many buckets ahead the walk is at another one, and nothing else about it differs. -/
theorem walks_skip (hk : w.walks[i]? = some k) (hm : m ≤ k.buckets.position.remaining) :
    ∃ k', (w.skip i m).walks[i]? = some k' ∧ k'.node = k.node ∧
      k'.buckets.array = k.buckets.array ∧ k'.buckets.position.length = k.buckets.position.length ∧
      k'.buckets.position.index.toNat = k.buckets.position.index.toNat + m := by
  induction m generalizing w k with
  | zero => exact ⟨k, hk, rfl, rfl, rfl, rfl⟩
  | succ m ih =>
    unfold Position.remaining at hm ih
    have hindex := k.buckets.position.index_next
    have hlength := k.buckets.position.length_next
    have hnext :
        m ≤ k.buckets.position.next.length.toNat - k.buckets.position.next.index.toNat := by
      rw [hlength]
      omega
    obtain ⟨k', hk', hnode, harray, hlength', hindex'⟩ := ih (walks_moveWalk hk .next) hnext
    refine ⟨k', hk', hnode, harray, hlength'.trans hlength, hindex'.trans ?_⟩
    change k.buckets.position.next.index.toNat + m = _
    omega

/-- Walk `i` has passed `m` buckets after the one where it was, all of them empty, and stands at one
that it cannot look at. It still watches what it watched. If the table cannot be read at all, that
is the next bucket. -/
structure Overshoots (w : World) (i m : Nat) (e : AccessRefusal) (v : World) : Prop where
  world : v = w.skip i (m + 1)
  refused : v.bucketHead i = .error e
  passed : ∀ l < m, (w.skip i (l + 1)).bucketHead i = .ok none
  first : ∀ e', w.inspect (.soft (.buckets i)) .shared = .error e' → m = 0
  node : (v.walk i).node = (w.walk i).node
  index : (v.walk i).buckets.position.index.toNat = (w.walk i).buckets.position.index.toNat + m + 1
  ahead : (v.walk i).buckets.position.isEnd = false

/-- Whether a table can be read does not depend on where a walk stands in it. -/
theorem inspect_moveWalk (n : Position.Move) (a : Access) :
    (w.moveWalk i n).inspect (.soft (.buckets i)) a = w.inspect (.soft (.buckets i)) a := by
  have hsoft : (w.moveWalk i n).soft (.buckets i) = w.soft (.buckets i) := by
    simp only [soft, soft?, moveWalk, Array.getElem?_modify, if_pos, Option.map_map]
    rfl
  have hreach : (w.moveWalk i n).reach (.soft (.buckets i)) = w.reach (.soft (.buckets i)) := by
    simp only [reach, hsoft]
    rfl
  rw [inspect, hreach]
  rfl

theorem walks_of_node (h : (w.walk i).node.isNone = false) : w.walks[i]? = some (w.walk i) := by
  cases hk : w.walks[i]? with
  | some k => rw [walk_eq hk]
  | none =>
    rw [walk, hk] at h
    cases h

theorem bucketHead_of_error {e : AccessRefusal}
    (h : w.inspect (.soft (.buckets i)) .shared = .error e) : w.bucketHead i = .error e := by
  rw [bucketHead, h]
  rfl

end World

namespace Op

open World

variable {α β : Type} {u v w : World} {i n : Nat} {c : Refusal}

/-! ### Programs that report no refusal -/

/-- Whatever the program ends in, it is not a refusal. -/
def Insists (a : Op α) : Prop := ∀ w c, (a.run.run w).1 ≠ .error (.refused c)

theorem Insists.bind {a : Op α} {f : α → Op β} (ha : a.Insists) (hf : ∀ x, (f x).Insists) :
    (a >>= f).Insists := by
  intro w c
  rw [run_bind]
  have hrun := ha w c
  rcases h : a.run.run w with ⟨e | x, v⟩
  · rw [h] at hrun
    exact fun hc => hrun (congrArg Except.error (Except.error.inj hc))
  · exact hf x v c

theorem insists_act (a : Action) : (act a).Insists := fun _ _ h => by cases h

theorem insists_quiesce : quiesce.Insists := by
  intro w c
  rw [run_quiesce]
  cases w.drain.unwinding <;> exact fun h => by cases h

theorem insists_inManner (a : Op α) : (inManner .insist a).Insists := by
  intro w c
  rw [run_insist]
  rcases a.run.run w with ⟨⟨cause | p | _⟩ | x, v⟩ <;> exact fun h => by cases h

theorem insists_dropSoft (p : SoftPlace) : (dropSoft p).Insists :=
  (insists_act _).bind fun _ => insists_quiesce

theorem insists_rewatch (r : RecordId) (p : SoftPlace) : (rewatch r p).Insists :=
  (insists_inManner _).bind fun _ => (insists_act _).bind fun _ => insists_dropSoft _

/-! ### The search for the next entry -/

/-- A bucket or an entry is looked at first, and all refusals come from there or later. -/
theorem refused_inspect_bind {f : World → Except AccessRefusal α} {g : α → Op β}
    (h : (inspect f >>= g).run.run w = (.error (.refused c), v)) :
    (∃ e, f w = .error e ∧ c = .access e ∧ v = w) ∨
      ∃ x, f w = .ok x ∧ (g x).run.run w = (.error (.refused c), v) := by
  have hinspect : (inspect f).run.run w = (access (f w) : Op α).run.run w := rfl
  rw [run_bind, hinspect] at h
  cases hf : f w with
  | error e =>
    rw [hf] at h
    cases h
    exact .inl ⟨e, rfl, rfl, rfl⟩
  | ok x =>
    rw [hf] at h
    exact .inr ⟨x, rfl, h⟩

/-- A search is refused at a bucket that it cannot look at; the buckets before it are empty. -/
theorem refused_seek (h : (seek i n).run.run w = (.error (.refused c), v)) :
    ∃ m e, m < n ∧ c = .access e ∧ v = w.skip i m ∧ v.bucketHead i = .error e ∧
      ∀ l < m, (w.skip i l).bucketHead i = .ok none := by
  induction n generalizing w with
  | zero => exact absurd (congrArg Prod.fst h) (insists_dropSoft _ w c)
  | succ n ih =>
    obtain ⟨e, he, rfl, rfl⟩ | ⟨head, hhead, h⟩ := refused_inspect_bind h
    · exact ⟨0, e, n.succ_pos, rfl, rfl, he, fun _ hl => absurd hl (Nat.not_lt_zero _)⟩
    · cases head with
      | some r => exact absurd (congrArg Prod.fst h) (insists_rewatch r _ w c)
      | none =>
        obtain ⟨m, e, hm, hc, hv, he, hempty⟩ := ih (w := w.moveWalk i .next) h
        refine ⟨m + 1, e, Nat.succ_lt_succ hm, hc, hv, he, fun l hl => ?_⟩
        cases l with
        | zero => exact hhead
        | succ l => exact hempty l (Nat.lt_of_succ_lt_succ hl)

/-- A step from the last entry of a chain is refused at one of the next buckets. -/
theorem refused_onward (hnode : (w.walk i).node.isNone = false)
    (h : (do act (.moveWalk i .next); seekOn i : Op Unit).run.run w = (.error (.refused c), v)) :
    ∃ m e, c = .access e ∧ w.Overshoots i m e v := by
  have hk := walks_of_node hnode
  have hwalk := walk_eq (walks_moveWalk hk .next)
  have hseek : (seek i ((w.moveWalk i .next).walk i).buckets.position.remaining).run.run
      (w.moveWalk i .next) = (.error (.refused c), v) := h
  rw [hwalk] at hseek
  obtain ⟨m, e, hm, rfl, hv, he, hempty⟩ := refused_seek hseek
  have hm : m < (w.walk i).buckets.position.next.remaining := hm
  unfold Position.remaining at hm
  rw [Position.index_next, Position.length_next] at hm
  have hahead : m + 1 ≤ (w.walk i).buckets.position.remaining := by
    unfold Position.remaining
    omega
  obtain ⟨k, hskip, hsame, -, hlength, hindex⟩ := walks_skip hk hahead
  have hvk : v.walk i = k := by
    rw [hv]
    exact walk_eq hskip
  refine ⟨m, e, rfl, hv, he, hempty, fun e' he' => ?_, hvk ▸ hsame, hvk ▸ hindex, ?_⟩
  · by_contra hne
    have hfirst := hempty 0 (Nat.pos_of_ne_zero hne)
    have hunread := bucketHead_of_error ((inspect_moveWalk .next .shared).trans he')
    exact absurd (hunread.symm.trans hfirst) (by simp)
  · rw [hvk, Position.isEnd_eq_false_iff, hindex, hlength]
    omega

theorem run_stepWalk (i : Nat) (w : World) :
    (stepWalk i).run.run w = (if (w.walk i).node.isNone then pure () else do
      let item ← inspect (·.walked i)
      match item.link with
      | some r => rewatch r (.node i)
      | none => do
        act (.moveWalk i .next)
        seekOn i : Op Unit).run.run w := rfl

/-- A walk at the last entry of a chain steps on to the buckets after the one where it stands. -/
theorem attains_stepWalk_last {t : RecordId} {chains : List (List RecordId)} {k : Walk}
    {item : Item} (h : w.Seeks i t chains k) (hlt : k.buckets.position.index.toNat < chains.length)
    (hnode : k.node.isNone = false) (hitem : w.walked i = .ok item) (hlink : item.link = none) :
    (stepWalk i).Attains w fun _ v =>
      v.At i t chains (chains.drop (k.buckets.position.index.toNat + 1)).flatten := by
  refine .after (run_look _ w) ?_
  rw [walk_eq h.walk, hnode, if_neg Bool.false_ne_true]
  refine .after (run_inspect hitem) ?_
  rw [hlink]
  exact (attains_onward h hlt (attains_seekOn h.moveWalk)).mono fun _ _ _ hv => hv.2.2

/-- A step that is refused has changed nothing if the entry at the walk cannot be read. Otherwise
that entry is the last of its chain, and the walk has moved on to a bucket that it cannot look at:
one at least, and just one if the table cannot be read at all. So when the step is asked for again
and the table can be read, it begins after that bucket, whose chain is never visited. -/
theorem stepWalk_refused (h : (stepWalk i).run.run w = (.error (.refused c), v)) :
    ∃ e, c = .access e ∧
      ((w.walked i = .error e ∧ v = w) ∨
        ∃ item m, w.walked i = .ok item ∧ item.link = none ∧ w.Overshoots i m e v ∧
          ∀ u t chains last, u.Seeks i t chains (v.walk i) → u.walked i = .ok last →
            last.link = none →
            (stepWalk i).Attains u fun _ x => x.At i t chains
              (chains.drop ((w.walk i).buckets.position.index.toNat + m + 2)).flatten) := by
  rw [run_stepWalk] at h
  split_ifs at h with hnone
  · cases h
  · have hnone := Bool.eq_false_of_not_eq_true hnone
    obtain ⟨e, he, rfl, rfl⟩ | ⟨item, hitem, h⟩ := refused_inspect_bind h
    · exact ⟨e, rfl, .inl ⟨he, rfl⟩⟩
    · cases hlink : item.link with
      | some r =>
        rw [hlink] at h
        exact absurd (congrArg Prod.fst h) (insists_rewatch r _ w c)
      | none =>
        rw [hlink] at h
        obtain ⟨m, e, rfl, hover⟩ := refused_onward hnone h
        refine ⟨e, rfl,
          .inr ⟨item, m, hitem, hlink, hover, fun u t chains last hu hlast hlink' => ?_⟩⟩
        have hlt := Position.isEnd_eq_false_iff.mp hover.ahead
        rw [hu.length] at hlt
        have hstep := attains_stepWalk_last hu hlt (hover.node ▸ hnone) hlast hlink'
        rwa [hover.index] at hstep

/-- A table of two buckets, each with a chain of one entry, and a walk at the first entry; the
table is borrowed exclusively. -/
def lentTable : World :=
  [.construct 0 ⟨.array, .bucket, .tracked⟩ ⟨2, fun _ => .bucket, none⟩,
    .construct 0 ⟨.one, .entry, .tracked⟩ (.single (.entry 10)),
    .construct 0 ⟨.one, .entry, .tracked⟩ (.single (.entry 11)),
    .lend (.owner 0) .exclusive, .exchangeLink 0 0 1, .exchangeLink 0 1 2, .endBorrow 0,
    .newWalk (some 0) 0, .attach 1 (.node 0), .lend (.owner 0) .exclusive].foldl
    Action.run (start defaultGrant)

/-- The same after a step of the walk; the table is not borrowed any more. -/
def freedTable : World := ((stepWalk 0).run.run lentTable).2.endBorrow 1

/-- The second entry is never visited. -/
theorem stepWalk_refused_lentTable :
    ((stepWalk 0).run.run lentTable).1 = .error (.refused (.access (.conflict .exclusive))) ∧
      freedTable.Table 0 [[1], [2]] ∧
      (stepWalk 0).Attains freedTable fun _ v => v.At 0 0 [[1], [2]] [] := by
  have hrun : ((stepWalk 0).run.run lentTable).1 =
      .error (.refused (.access (.conflict .exclusive))) := by
    decide +kernel
  have hstep : (stepWalk 0).run.run lentTable =
      (.error (.refused (.access (.conflict .exclusive))), ((stepWalk 0).run.run lentTable).2) :=
    Prod.ext hrun rfl
  have hfirst : freedTable.Chain (some 1) [1] :=
    .cons (i := .entry 10 none) (by decide +kernel) .nil
  have hsecond : freedTable.Chain (some 2) [2] :=
    .cons (i := .entry 11 none) (by decide +kernel) .nil
  have ht : freedTable.Table 0 [[1], [2]] :=
    ⟨[.bucket (some 1), .bucket (some 2)], by decide +kernel, .cons hfirst (.cons hsecond .nil)⟩
  have hentry : lentTable.walked 0 = .ok (.entry 10 none) := by decide +kernel
  refine ⟨hrun, ht, ?_⟩
  obtain ⟨e, -, ⟨he, -⟩ | ⟨item, m, -, -, hover, hlater⟩⟩ := stepWalk_refused hstep
  · exact absurd (hentry.symm.trans he) (by simp)
  · obtain rfl := hover.first (.conflict .exclusive) (by decide +kernel)
    have hseeks : freedTable.Seeks 0 0 [[1], [2]] (((stepWalk 0).run.run lentTable).2.walk 0) :=
      ⟨((reachable_foldl _ _).reaches (reaches_of_run hstep)).reaches (.once (.endBorrow 1)),
        ⟨by decide +kernel, by decide +kernel⟩,
        ht, by decide +kernel, by decide +kernel, by decide +kernel,
        by decide +kernel, by decide +kernel⟩
    exact hlater freedTable 0 [[1], [2]] (.entry 10 none) hseeks (by decide +kernel) rfl

/-- A step that is refused does not leave the walk where it was. -/
theorem not_stays_of_refused :
    ¬ ∀ (w v : World) (i : Nat) (c : Refusal), w.Reachable →
      (stepWalk i).run.run w = (.error (.refused c), v) →
        (v.walk i).node = (w.walk i).node ∧
          (v.walk i).buckets.position.index = (w.walk i).buckets.position.index := by
  intro h
  have hrun : ((stepWalk 0).run.run lentTable).1 =
      .error (.refused (.access (.conflict .exclusive))) := by
    decide +kernel
  have hmoved : (((stepWalk 0).run.run lentTable).2.walk 0).buckets.position.index ≠
      (lentTable.walk 0).buckets.position.index := by decide +kernel
  exact hmoved (h lentTable _ 0 _ (reachable_foldl _ _) (Prod.ext hrun rfl)).2

end Op

end Custody
