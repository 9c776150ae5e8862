import Custody.Proofs.Walks.Moves

/-! A walk visits every entry of a table once, bucket by bucket. What a walk has still to
visit is a suffix of all entries; each step takes the first one off. -/

namespace Custody

/-- A walk over table `t` has `rest` still to visit: it stands at the first of these and at its
bucket, or it has nothing to visit and stands at the end. -/
structure Walk.Stands (k : Walk) (t : RecordId) (chains : List (List RecordId))
    (rest : List RecordId) : Prop where
  table : k.buckets.array.map Watch.record = some t
  length : k.buckets.position.length.toNat = chains.length
  node : k.node.map Watch.record = rest.head?
  rest : (rest = [] ∧ k.buckets.position.index.toNat = chains.length) ∨
    ∃ before here, here ≠ [] ∧ chains[k.buckets.position.index.toNat]? = some (before ++ here) ∧
      rest = here ++ (chains.drop (k.buckets.position.index.toNat + 1)).flatten

namespace Walk

variable {k : Walk} {t : RecordId} {chains : List (List RecordId)} {rest : List RecordId}

theorem flatten_drop {n : Nat} {rs : List RecordId} (h : chains[n]? = some rs) :
    (chains.drop n).flatten = rs ++ (chains.drop (n + 1)).flatten := by
  rw [List.drop_eq_getElem?_toList_append, h]
  rfl

/-- With nothing to visit the walk watches nothing and stands at the end. -/
theorem Stands.of_nil (h : k.Stands t chains []) :
    k.node = none ∧ k.buckets.position.index.toNat = chains.length := by
  refine ⟨Option.map_eq_none_iff.mp h.node, ?_⟩
  obtain ⟨-, hindex⟩ | ⟨_, here, hne, -, hnil⟩ := h.rest
  · exact hindex
  · exact absurd (List.append_eq_nil_iff.mp hnil.symm).1 hne

/-- The walk stands at the end exactly if it watches no entry. -/
theorem Stands.node_eq_none_iff (h : k.Stands t chains rest) :
    k.node = none ↔ k.buckets.position.isEnd = true := by
  rw [Position.isEnd_iff, h.length, ← Option.map_eq_none_iff, h.node, List.head?_eq_none_iff]
  obtain ⟨hrest, hindex⟩ | ⟨before, here, hne, hhere, hrest⟩ := h.rest
  · exact iff_of_true hrest hindex
  · have hlt := (List.getElem?_eq_some_iff.mp hhere).1
    exact iff_of_false (by simp [hrest, hne]) hlt.ne

theorem Stands.eq_nil (h : k.Stands t chains rest) (hnode : k.node = none) : rest = [] := by
  have hhead := h.node
  rwa [hnode, Option.map_none, eq_comm, List.head?_eq_none_iff] at hhead

theorem Stands.eq_cons (h : k.Stands t chains rest) {j : Watch} (hj : k.node = some j) :
    ∃ before tail, chains[k.buckets.position.index.toNat]? = some (before ++ j.record :: tail) ∧
      rest = j.record :: tail ++ (chains.drop (k.buckets.position.index.toNat + 1)).flatten := by
  have hnode := h.node
  rw [hj, Option.map_some] at hnode
  obtain ⟨rfl, -⟩ | ⟨before, here, hne, hhere, rfl⟩ := h.rest
  · cases hnode
  · cases here with
    | nil => exact absurd rfl hne
    | cons r tail =>
      obtain rfl : j.record = r := by simpa using hnode
      exact ⟨before, tail, hhere, rfl⟩

/-- The entry that a walk watches is in the chain of the bucket where the walk stands. -/
theorem Stands.node_mem (h : k.Stands t chains rest) {j : Watch} (hj : k.node = some j) :
    ∃ rs, chains[k.buckets.position.index.toNat]? = some rs ∧ j.record ∈ rs := by
  obtain ⟨before, tail, hhere, -⟩ := h.eq_cons hj
  exact ⟨_, hhere, by simp⟩

/-- The walk at the next bucket, with its node as it was. -/
def onward (k : Walk) : Walk :=
  { k with buckets := { k.buckets with position := k.buckets.position.next } }

/-- What is still to be visited is the end of all entries. -/
theorem Stands.suffix (h : k.Stands t chains rest) : rest <:+ chains.flatten := by
  obtain ⟨rfl, -⟩ | ⟨before, here, -, hhere, rfl⟩ := h.rest
  · exact List.nil_suffix
  · refine ⟨(chains.take k.buckets.position.index.toNat).flatten ++ before, ?_⟩
    rw [List.append_assoc, ← List.append_assoc before, ← flatten_drop hhere, ← List.flatten_append,
      List.take_append_drop]

end Walk

namespace World

variable {v w : World} {i : Nat} {t : RecordId} {chains : List (List RecordId)}
  {rest : List RecordId}

/-- Walk `i` has `rest` still to visit in table `t`, and no guard borrows through it. -/
def At (w : World) (i : Nat) (t : RecordId) (chains : List (List RecordId))
    (rest : List RecordId) : Prop :=
  ∃ k, w.walks[i]? = some k ∧ k.Stands t chains rest ∧ w.isLent (.soft (.node i)) = false

/-- Walk `i` is `k`, and it can look for an entry in table `t`: what it watches and goes through is
alive, and no guard borrows through it. -/
structure Seeks (w : World) (i : Nat) (t : RecordId) (chains : List (List RecordId))
    (k : Walk) : Prop where
  reachable : w.Reachable
  calm : w.IsCalm
  table : w.Table t chains
  walk : w.walks[i]? = some k
  array : k.buckets.array.map Watch.record = some t
  length : k.buckets.position.length.toNat = chains.length
  free : w.isLent (.soft (.node i)) = false
  alive : ∀ j, k.node = some j → w.isAlive j.record = true

theorem Seeks.index_onward {k : Walk} (h : w.Seeks i t chains k)
    (hlt : k.buckets.position.index.toNat < chains.length) :
    k.onward.buckets.position.index.toNat = k.buckets.position.index.toNat + 1 := by
  rw [Walk.onward, Position.index_next, h.length]
  omega

theorem Seeks.moveWalk {k : Walk} (h : w.Seeks i t chains k) :
    (w.moveWalk i .next).Seeks i t chains k.onward where
  reachable := h.reachable.reaches (.once (.moveWalk i .next))
  calm := ⟨h.calm.pending, h.calm.unwinding⟩
  table := (around_moveWalk (i := i) .next).alike.table h.table
  walk := walks_moveWalk h.walk .next
  array := h.array
  length := by rw [Walk.onward, Position.length_next, h.length]
  free := h.free
  alive := h.alive

/-- The handle in an observing variable watches a record. -/
def Watches (w : World) (n : Nat) (r : RecordId) : Prop :=
  ∃ k : Watch, w.softs[n]? = some (some k) ∧ k.record = r

theorem Around.watches (h : Around i w v) {n : Nat} {r : RecordId} (hn : w.Watches n r) :
    v.Watches n r := by
  obtain ⟨k, hk, hr⟩ := hn
  exact ⟨k, h.softs n _ hk, hr⟩

theorem Around.at {j : Nat} (h : Around j w v) (hij : i ≠ j) (hat : w.At i t chains rest) :
    v.At i t chains rest := by
  obtain ⟨k, hk, hstands, hl⟩ := hat
  exact ⟨k, h.walks i k hij hk, hstands, by rw [h.alike.isLent, hl]⟩

theorem Reachable.length_table (h : w.Reachable) (ht : w.Table t chains) :
    w.rangeLength (some t) = chains.length ∧ chains.length < UInt64.size := by
  obtain ⟨items, hopen, hall⟩ := ht
  obtain ⟨rec, hr, hobj⟩ := Option.bind_eq_some_iff.mp (open?_eq_ok hopen).2
  have hmeasured := h.measured hr
  have hlength := (hmeasured.length items hobj).symm.trans hall.length_eq
  refine ⟨?_, hlength ▸ hmeasured.word⟩
  rw [rangeLength, hr]
  exact hlength

theorem Table.isAlive_of_mem (h : w.Table t chains) {r : RecordId} (hr : r ∈ chains.flatten) :
    w.isAlive r = true := by
  obtain ⟨rs, hrs, hr⟩ := List.mem_flatten.mp hr
  obtain ⟨n, hn⟩ := List.mem_iff_getElem?.mp hrs
  obtain ⟨-, i, -, -, hchain⟩ := h.chain hn
  exact hchain.isAlive hr

end World

namespace Op

open World

variable {w : World} {i : Nat} {t : RecordId} {chains : List (List RecordId)} {rest : List RecordId}
  {k : Walk}

/-- What a walk watches from now on is the first entry that it has to visit. -/
theorem attains_arrive (h : w.Seeks i t chains k) {r : RecordId} (before : List RecordId)
    {tail : List RecordId}
    (hhere : chains[k.buckets.position.index.toNat]? = some (before ++ r :: tail)) :
    (rewatch r (.node i)).Attains w fun _ v => v.IsCalm ∧ Around i w v ∧
      v.At i t chains
        (r :: tail ++ (chains.drop (k.buckets.position.index.toNat + 1)).flatten) := by
  have hmem : r ∈ chains.flatten :=
    List.mem_flatten.mpr ⟨_, List.mem_of_getElem? hhere, List.mem_append_right _ List.mem_cons_self⟩
  refine (attains_rewatch h.reachable h.calm (h.table.isAlive_of_mem hmem) h.walk h.free
    h.alive).mono ?_
  rintro - v - ⟨hcalm, haround, j, rfl, hwalk⟩
  have hfree : v.isLent (.soft (.node i)) = false := by rw [haround.alike.isLent, h.free]
  refine ⟨hcalm, haround, _, hwalk, ⟨h.array, h.length, rfl, .inr ?_⟩, hfree⟩
  exact ⟨before, j.record :: tail, List.cons_ne_nil _ _, hhere, rfl⟩

/-- With nothing more in the present bucket, the walk goes on from the next one. -/
theorem attains_onward (h : w.Seeks i t chains k)
    (hlt : k.buckets.position.index.toNat < chains.length) {a : Op Unit}
    (ha : a.Attains (w.moveWalk i .next) fun _ v => v.IsCalm ∧ Around i (w.moveWalk i .next) v ∧
      v.At i t chains (chains.drop k.onward.buckets.position.index.toNat).flatten) :
    (act (.moveWalk i .next) >>= fun _ => a).Attains w fun _ v => v.IsCalm ∧ Around i w v ∧
      v.At i t chains (chains.drop (k.buckets.position.index.toNat + 1)).flatten := by
  refine .after (run_act _ w) (ha.mono ?_)
  rintro - v - ⟨hcalm, haround, hat⟩
  rw [h.index_onward hlt] at hat
  exact ⟨hcalm, (around_moveWalk .next).trans haround, hat⟩

theorem attains_seek {n : Nat} (h : w.Seeks i t chains k) (hn : n = k.buckets.position.remaining) :
    (seek i n).Attains w fun _ v => v.IsCalm ∧ Around i w v ∧
      v.At i t chains (chains.drop k.buckets.position.index.toNat).flatten := by
  have hlength := h.length
  unfold Position.remaining at hn
  induction n generalizing w k with
  | zero =>
    have hend : k.buckets.position.index.toNat = chains.length := by
      have := k.buckets.position.index_le
      omega
    have hrest : (chains.drop k.buckets.position.index.toNat).flatten = [] := by
      rw [hend, List.drop_length, List.flatten_nil]
    refine (attains_clearNode h.reachable h.calm h.walk h.free h.alive).mono ?_
    rintro - v - ⟨hcalm, haround, hwalk⟩
    have hfree : v.isLent (.soft (.node i)) = false := by rw [haround.alike.isLent, h.free]
    rw [hrest]
    exact ⟨hcalm, haround, _, hwalk, ⟨h.array, hlength, rfl, .inl ⟨rfl, hend⟩⟩, hfree⟩
  | succ n ih =>
    have hlt : k.buckets.position.index.toNat < chains.length := by omega
    have hhere := List.getElem?_eq_getElem hlt
    obtain ⟨items, item, hopen, hi, hchain⟩ := h.table.chain hhere
    refine .after (run_inspect (h.reachable.bucketHead_eq h.walk h.array hopen hi)) ?_
    rw [Walk.flatten_drop hhere]
    cases hlink : item.link with
    | some r =>
      -- the first chain that is not empty
      rw [hlink] at hchain
      obtain ⟨tail, htail⟩ := hchain.eq_cons
      rw [htail] at hhere ⊢
      exact attains_arrive h [] hhere
    | none =>
      rw [hlink] at hchain
      have hempty : chains[k.buckets.position.index.toNat] = [] := hchain.unique .nil
      rw [hempty, List.nil_append]
      refine attains_onward h hlt (ih h.moveWalk ?_ h.moveWalk.length)
      rw [h.index_onward hlt, h.moveWalk.length]
      omega

theorem attains_seekOn (h : w.Seeks i t chains k) :
    (seekOn i).Attains w fun _ v => v.IsCalm ∧ Around i w v ∧
      v.At i t chains (chains.drop k.buckets.position.index.toNat).flatten := by
  refine .after (run_look _ w) ?_
  rw [walk_eq h.walk]
  exact attains_seek h rfl

/-- A step leaves the first entry behind; at the end it leaves all as it is. -/
theorem attains_stepWalk (h : w.Reachable) (hc : w.IsCalm)
    (ht : w.Table t chains) (hat : w.At i t chains rest) :
    (stepWalk i).Attains w fun _ v => v.IsCalm ∧ Around i w v ∧ v.At i t chains rest.tail := by
  obtain ⟨k, hk, hstands, hl⟩ := hat
  refine .after (run_look _ w) ?_
  rw [walk_eq hk]
  cases hnode : k.node with
  | none =>
    obtain rfl := hstands.eq_nil hnode
    rw [Option.isNone_none, if_pos rfl]
    exact .of_run (run_pure _ w) ⟨hc, .refl i w, k, hk, hstands, hl⟩
  | some j =>
    rw [if_neg (by simp)]
    obtain ⟨before, tail, hhere, rfl⟩ := hstands.eq_cons hnode
    obtain ⟨items, item, -, -, hchain⟩ := ht.chain hhere
    cases hchain.of_append with
    | @cons _ _ entry hopen htail =>
    refine .after (run_inspect (h.walked_eq hk (by rw [hnode, Option.map_some]) hopen)) ?_
    have hseeks : w.Seeks i t chains k := by
      refine ⟨h, hc, ht, hk, hstands.table, hstands.length, hl, fun q hq => ?_⟩
      obtain rfl := Option.some.inj (hnode.symm.trans hq)
      exact (open?_eq_ok hopen).1
    cases hlink : entry.link with
    | some q =>
      -- the chain goes on
      rw [hlink] at htail
      obtain ⟨tail, rfl⟩ := htail.eq_cons
      refine attains_arrive hseeks (before ++ [j.record]) ?_
      rw [hhere, List.append_assoc]
      rfl
    | none =>
      -- the chain is at its end, so the next buckets follow
      rw [hlink] at htail
      obtain rfl := htail.unique .nil
      have hlt := (List.getElem?_eq_some_iff.mp hhere).1
      exact attains_onward hseeks hlt (attains_seekOn hseeks.moveWalk)

/-- A new walk over a table, at a bucket, that watches nothing yet. -/
theorem attains_openWalk (h : w.Reachable) (hc : w.IsCalm) (ht : w.Table t chains)
    (index : UInt64) :
    (inManner .insist (granted (Act.newWalk (some t) index))).Attains w fun i v =>
      i = w.walks.size ∧ v.IsCalm ∧ Around i w v ∧ v.isLent (.soft (.node i)) = false ∧
        ∃ k : Walk, v.walks[i]? = some k ∧ k.node = none ∧
          k.buckets.array.map Watch.record = some t ∧
          k.buckets.position.length.toNat = chains.length ∧
          k.buckets.position.index.toNat = min index.toNat chains.length := by
  refine (attains_newWalk h hc ht.isAlive index).mono ?_
  rintro - v - ⟨rfl, halike, hcalm, k, hnode, htable, hposition, hhands⟩
  obtain ⟨hlength, hword⟩ := h.length_table ht
  have hwalks := walks_of_hands hhands
  have hn : (UInt64.ofNat chains.length).toNat = chains.length := by
    rw [UInt64.toNat_ofNat']
    exact Nat.mod_eq_of_lt hword
  simp only [hands, Prod.mk.injEq] at hhands
  obtain ⟨howners, hsofts, hscans, -, -⟩ := hhands
  have haround : Around w.walks.size w v :=
    ⟨halike, howners, fun n s hs => hsofts ▸ hs, hscans,
      fun j c _ hj => hwalks ▸ getElem?_push_of_some hj⟩
  refine ⟨rfl, hcalm, haround, ?_, k, by rw [hwalks]; simp, hnode, htable, ?_, ?_⟩
  · rw [halike.isLent]
    exact h.tended.not_isLent (by simp [soft?])
  · rw [hposition, Position.length_clamped, hlength, hn]
  · rw [hposition, Position.index_clamped, hlength, hn]

theorem attains_beginWalk (h : w.Reachable) (hc : w.IsCalm)
    (ht : w.Table t chains) {j : Watch} (hj : j.record = t) :
    (beginWalk (some j)).Attains w fun i v =>
      i = w.walks.size ∧ v.IsCalm ∧ Around i w v ∧ v.At i t chains chains.flatten := by
  subst hj
  refine (attains_openWalk h hc ht 0).bind fun i u hu ⟨hi, hcalm, haround, hl, k, hk, hnode, htable,
    hlength, hindex⟩ => ?_
  have hseeks : u.Seeks i j.record chains k :=
    ⟨h.reaches hu, hcalm, haround.alike.table ht, hk, htable, hlength, hl, fun q hq => by
      cases hnode.symm.trans hq⟩
  refine (attains_seekOn hseeks).rescue (fun _ => rfl) (fun _ _ => dropWalk_unwinding i)
    fun _ v _ ⟨hvcalm, haround', hat⟩ => ?_
  rw [hindex, UInt64.toNat_zero, Nat.zero_min, List.drop_zero] at hat
  exact .of_run (run_pure i v) ⟨hi, hvcalm, haround.trans haround', hat⟩

theorem attains_endWalk (h : w.Reachable) (hc : w.IsCalm) (ht : w.Table t chains)
    {j : Watch} (hj : j.record = t) :
    (endWalk (some j)).Attains w fun i v =>
      i = w.walks.size ∧ v.IsCalm ∧ Around i w v ∧ v.At i t chains [] := by
  subst hj
  refine (attains_openWalk h hc ht Word.top).mono ?_
  rintro i v - ⟨hi, hcalm, haround, hl, k, hk, hnode, htable, hlength, hindex⟩
  have hend : k.buckets.position.index.toNat = chains.length := by
    have hword := (h.length_table ht).2
    have htop : Word.top.toNat = UInt64.size - 1 := rfl
    omega
  exact ⟨hi, hcalm, haround, k, hk, ⟨htable, hlength, by rw [hnode]; rfl, .inl ⟨rfl, hend⟩⟩, hl⟩

/-- A copy has the same to visit, and the walk itself stays. -/
theorem attains_copyWalk (h : w.Reachable) (hc : w.IsCalm)
    (ht : w.Table t chains) (hat : w.At i t chains rest) :
    (copyWalk i).Attains w fun j v =>
      j = w.walks.size ∧ v.IsCalm ∧ Around j w v ∧ v.At j t chains rest := by
  obtain ⟨k, hk, hstands, hl⟩ := hat
  refine .after (run_look _ w) ?_
  rw [walk_eq hk]
  have hnode (r : RecordId) (hr : k.node.map Watch.record = some r) : w.isAlive r = true := by
    have hmem : r ∈ chains.flatten :=
      hstands.suffix.subset (List.mem_of_mem_head? (hstands.node ▸ hr))
    exact ht.isAlive_of_mem hmem
  refine (attains_watch? h hc hnode).bind fun n u hu hwatched => ?_
  obtain ⟨hn, halike, hcalm, s, hs, hhands⟩ := hwatched
  have hnew : w.softs[n]? = none := by simp [hn]
  have husoft : u.softs[n]? = some s := by simp [softs_of_hands hhands, hn]
  have hur := h.reaches hu
  rw [hstands.table]
  refine (attains_openWalk hur hcalm (halike.table ht) k.buckets.position.index).rescue
    (fun _ => rfl) (fun _ _ => dropSoft_unwinding _)
    fun j v hv hopened => ?_
  obtain ⟨hj, hvcalm, haround, hvl, c, hcw, hcnode, hctable, hclength, hcindex⟩ := hopened
  have hwalks : u.walks = w.walks := (walks_of_hands hhands).trans rfl
  have hlent : v.isLent (.soft (.soft n)) = false := by
    rw [haround.alike.isLent, halike.isLent]
    exact h.tended.not_isLent hnew
  obtain ⟨haround, hxwalk, -⟩ :=
    ((around_pushSoft halike hhands).trans haround).swap hnew hcw
      (haround.softs n s husoft) hvl hlent
  have hkeeps := keeps_run (w := v) (a := .swapSofts (.node j) (.soft n)) trivial
  refine .after (run_act _ v)
    (.of_run (run_pure j _) ⟨by rw [hj, hwalks], ⟨hkeeps.pending.trans hvcalm.pending,
    (unwinding_swapSofts _ _).trans hvcalm.unwinding⟩, haround, _, hxwalk, ?_, ?_⟩)
  · have hindex : c.buckets.position.index.toNat = k.buckets.position.index.toNat := by
      rw [hcindex, ← hstands.length]
      exact Nat.min_eq_left k.buckets.position.index_le
    exact ⟨hctable, hclength, hs.trans hstands.node, hindex ▸ hstands.rest⟩
  · exact (haround.alike.isLent _).trans (h.tended.not_isLent (by simp [soft?, hj, hwalks]))

/-- The handle that comes of a step watches the first entry of what was to visit. -/
theorem attains_nextNode (h : w.Reachable) (hc : w.IsCalm)
    (ht : w.Table t chains) (hat : w.At i t chains rest) :
    (nextNode i).Attains w fun x v => v.IsCalm ∧ Around i w v ∧ v.At i t chains rest.tail ∧
      match rest.head? with
      | none => x = none
      | some r => ∃ n, x = some n ∧ v.Watches n r := by
  obtain ⟨k, hk, hstands, hl⟩ := id hat
  refine .after (run_look _ w) ?_
  rw [walk_eq hk, ← hstands.node]
  cases hnode : k.node with
  | none =>
    obtain rfl := hstands.eq_nil hnode
    exact .of_run (run_pure _ w) ⟨hc, .refl i w, hat, rfl⟩
  | some q =>
    have hmem : q.record ∈ chains.flatten :=
      hstands.suffix.subset (List.mem_of_mem_head? (by rw [← hstands.node, hnode]; rfl))
    refine (attains_watch h hc (ht.isAlive_of_mem hmem)).bind
      fun n u hu hwatched => ?_
    obtain ⟨hn, halike, hcalm, p, hp, hhands⟩ := hwatched
    have huat : u.At i t chains rest :=
      (around_pushSoft (i := i + 1) halike hhands).at (Nat.succ_ne_self i).symm hat
    have hwatches : u.Watches n q.record := ⟨p, by simp [softs_of_hands hhands, hn], hp⟩
    refine (attains_stepWalk (h.reaches hu) hcalm (halike.table ht) huat).insist.rescue
      (fun _ => rfl) (fun _ _ => dropSoft_unwinding _) fun _ v _ hstepped => ?_
    obtain ⟨hvcalm, haround, hvat⟩ := hstepped
    exact .of_run (run_pure _ v)
      ⟨hvcalm, (around_pushSoft halike hhands).trans haround, hvat, n, rfl,
      haround.watches hwatches⟩

/-- What comes of asking a walk for the next entry again and again, `n` times at most: the
variables of the handles. -/
def nodes (i : Nat) : Nat → Op (List Nat)
  | 0 => return []
  | n + 1 => do
    match ← nextNode i with
    | none => return []
    | some s => return s :: (← nodes i n)

/-- A walk that is used up gives handles to all that it had to visit, in order. -/
theorem attains_nodes {n : Nat} (h : w.Reachable) (hc : w.IsCalm)
    (ht : w.Table t chains) (hat : w.At i t chains rest) (hn : rest.length < n) :
    (nodes i n).Attains w fun ns v => v.IsCalm ∧ Around i w v ∧ v.At i t chains [] ∧
      List.Forall₂ v.Watches ns rest := by
  induction n generalizing w rest with
  | zero => exact absurd hn (Nat.not_lt_zero _)
  | succ n ih =>
    refine (attains_nextNode h hc ht hat).bind fun x u hu ⟨hcalm, haround, huat, hx⟩ => ?_
    cases rest with
    | nil =>
      obtain rfl : x = none := hx
      exact .of_run (run_pure _ u) ⟨hcalm, haround, huat, .nil⟩
    | cons r rest =>
      obtain ⟨s, rfl, hs⟩ := hx
      refine (ih (h.reaches hu) hcalm (haround.alike.table ht) huat
        (Nat.lt_of_succ_lt_succ hn)).bind fun ns v _ ⟨hvcalm, haround', hvat, hns⟩ => ?_
      exact .of_run (run_pure _ v)
        ⟨hvcalm, haround.trans haround', hvat, .cons (haround'.watches hs) hns⟩

/-- `n` steps. -/
def steps (i : Nat) : Nat → Op Unit
  | 0 => return ()
  | n + 1 => do
    stepWalk i
    steps i n

theorem attains_steps (n : Nat) (h : w.Reachable) (hc : w.IsCalm)
    (ht : w.Table t chains) (hat : w.At i t chains rest) :
    (steps i n).Attains w fun _ v => v.IsCalm ∧ Around i w v ∧ v.At i t chains (rest.drop n) := by
  induction n generalizing w rest with
  | zero => exact .of_run (run_pure _ w) ⟨hc, .refl i w, hat⟩
  | succ n ih =>
    refine (attains_stepWalk h hc ht hat).bind fun _ u hu ⟨hcalm, haround, huat⟩ => ?_
    refine (ih (h.reaches hu) hcalm (haround.alike.table ht) huat).mono ?_
    rintro - v - ⟨hvcalm, haround', hvat⟩
    rw [List.drop_tail] at hvat
    exact ⟨hvcalm, haround.trans haround', hvat⟩

/-- From a walk on, all that it has to visit, through a walk of their own. -/
theorem attains_copied {n : Nat} (h : w.Reachable) (hc : w.IsCalm)
    (ht : w.Table t chains) (hat : w.At i t chains rest) (hn : rest.length < n) :
    Attains (do nodes (← copyWalk i) n) w fun ns v =>
      v.IsCalm ∧ v.At i t chains rest ∧ List.Forall₂ v.Watches ns rest := by
  refine (attains_copyWalk h hc ht hat).bind fun j u hu ⟨hj, hcalm, haround, huat⟩ => ?_
  have hij : i ≠ j := by
    obtain ⟨k, hk, -⟩ := hat
    have := (Array.getElem?_eq_some_iff.mp hk).1
    omega
  refine (attains_nodes (h.reaches hu) hcalm (haround.alike.table ht) huat hn).mono ?_
  rintro ns v - ⟨hvcalm, haround', -, hns⟩
  exact ⟨hvcalm, haround'.at hij (haround.at hij hat), hns⟩

/-! ### The search for the next bucket ends -/

theorem run_inspect_bind {α β : Type} (f : World → Except AccessRefusal α) (g : α → Op β)
    (w : World) : (inspect f >>= g).run.run w = match f w with
      | .ok x => (g x).run.run w
      | .error e => (.error (.refused (.access e)), w) := by
  rw [run_bind, run_inspect_eq]
  cases f w <;> rfl

/-- A walk that is not at the end has one bucket less to go after it moved on. One that is not there
is at the end. -/
theorem remaining_moveWalk (hend : (w.walk i).buckets.position.isEnd = false) :
    (w.walk i).buckets.position.remaining =
      ((w.moveWalk i .next).walk i).buckets.position.remaining + 1 := by
  have hlt := Position.isEnd_eq_false_iff.mp hend
  cases hk : w.walks[i]? with
  | none =>
    rw [walk, hk] at hend
    cases hend
  | some k =>
    rw [walk_eq hk] at hlt ⊢
    rw [walk_eq (walks_moveWalk hk .next)]
    unfold Position.remaining
    rw [Position.move, Position.index_next, Position.length_next]
    omega

/-- Seeking is a loop that asks at each bucket whether it is past the last one: the bound on its
steps is never reached before. -/
theorem run_seekOn (i : Nat) (w : World) :
    (seekOn i).run.run w = (do
      if (← look (·.walk i)).buckets.position.isEnd then clearNode i
      else
        match ← inspect (·.bucketHead i) with
        | some r => rewatch r (.node i)
        | none => do
          act (.moveWalk i .next)
          seekOn i : Op Unit).run.run w := by
  have hseek (v : World) :
      (seekOn i).run.run v = (seek i (v.walk i).buckets.position.remaining).run.run v := rfl
  have hlook {β : Type} (g : Walk → Op β) :
      (look (·.walk i) >>= g).run.run w = (g (w.walk i)).run.run w := rfl
  rw [hseek, hlook]
  cases hend : (w.walk i).buckets.position.isEnd with
  | true =>
    have hzero : (w.walk i).buckets.position.remaining = 0 := by
      have := Position.isEnd_iff.mp hend
      unfold Position.remaining
      omega
    rw [hzero, if_pos rfl, seek]
  | false =>
    rw [if_neg Bool.false_ne_true, remaining_moveWalk hend, seek, run_inspect_bind,
      run_inspect_bind]
    rcases w.bucketHead i with e | _ | r
    · rfl
    · exact (hseek (w.moveWalk i .next)).symm
    · rfl

end Op

end Custody
