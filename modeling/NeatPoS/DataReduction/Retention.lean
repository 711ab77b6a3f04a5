import NeatPoS.DataReduction.PruneProcessor

/-!
# What pruning keeps

`pruneData` deletes what has been scanned and is not marked, and only the head is marked.

* The head itself is safe as long as every block is built on the one before it: every node of its
  account trie is marked under the lock, and the nodes of the inner tries are never entered, since
  `countTrie` waits for addresses of 20 bytes (`Safe`, `head_kept`).  A block that was executed
  earlier, on another block than the head, may become the head without some of its nodes
  (`TwoStates.rival_damaged`).
* The blocks before the head are not.  A node that one of them shares with a state that has been
  scanned since the last pruning, or with the head of that time, and not with the present head, is
  deleted.  These states (`seenAfter`) are all that can be in the map (`Covered`), and
  `retained_of_apart` says for all the prunings of a run that nothing else is in danger.
-/

set_option autoImplicit false

namespace NeatPoS

namespace DataReduction

variable {p q p' : PruneProcessor} {a : Action} {acts : List Action} {k : NodeKey}
  {t : StateTrie} {nc : NodeCount} {db : Finset NodeKey}

/-! ## Runs -/

theorem run_cons : run p (a :: acts) = .ok p' ↔ ∃ q, a.exec p = .ok q ∧ run q acts = .ok p' := by
  rw [run, List.foldlM_cons]
  cases a.exec p with
  | error => simp [bind, Except.bind]
  | ok => simp [bind, Except.bind, run]

theorem run_nil : run p [] = .ok p' ↔ p' = p := by
  rw [run, List.foldlM_nil]
  exact ⟨fun h => (Except.ok.inj h).symm, fun h => congrArg Except.ok h.symm⟩

/-- A condition on every action of a run, and on what it is applied to. -/
def Along (C : PruneProcessor → Action → Prop) : PruneProcessor → List Action → Prop
  | _, [] => True
  | p, a :: acts => C p a ∧ ∀ q, a.exec p = .ok q → Along C q acts

/-- What the actions keep is kept by a run. -/
theorem Along.keeps {C : PruneProcessor → Action → Prop} {I : PruneProcessor → Prop}
    (hstep : ∀ p a q, I p → C p a → a.exec p = .ok q → I q) (hp : I p) (hC : Along C p acts)
    (hrun : run p acts = .ok p') : I p' := by
  induction acts generalizing p with
  | nil =>
    rw [run_nil.1 hrun]
    exact hp
  | cons a _ ih =>
    obtain ⟨q, hexec, hrest⟩ := run_cons.1 hrun
    exact ih (hstep p a q hp hC.1 hexec) (hC.2 q hexec) hrest

/-- What an action can do. -/
theorem Action.exec_cases (hexec : a.exec p = .ok q) :
    (∃ state written, a = .insert state written ∧ q = p.inserted state written) ∨
    (∃ i root, a = .count i ∧ p.blocks[i]? = some root ∧ q = p.counted root) ∨
    (a = .prune ∧ q = p.prune) ∨
    (∃ start i, a = .deleteBodies start i ∧ q = p.deleteBodies start i) := by
  cases a with
  | insert state written => exact .inl ⟨state, written, rfl, (Except.ok.inj hexec).symm⟩
  | count i =>
    rw [exec] at hexec
    cases hroot : p.blocks[i]? with
    | none => simp [hroot] at hexec
    | some root =>
      simp only [hroot] at hexec
      exact .inr (.inl ⟨i, root, rfl, hroot, (Except.ok.inj hexec).symm⟩)
  | prune => exact .inr (.inr (.inl ⟨rfl, (Except.ok.inj hexec).symm⟩))
  | deleteBodies start i =>
    exact .inr (.inr (.inr ⟨start, i, rfl, (Except.ok.inj hexec).symm⟩))

/-! ## Two states -/

namespace TwoStates

def noTrie : InnerTrie := ⟨.nil, by simp [NodeForest.hashes]⟩

/-- An account with a storage trie. -/
def account : Account where
  key := List.replicate 32 0
  length_key := Or.inl rfl
  root := ⟨.node ⟨.inner, [9]⟩ none .nil .nil, by simp [NodeForest.hashes]⟩
  tx1Root := noTrie
  tx3Root := noTrie
  proxiedRoot := noTrie
  rewardRoot := noTrie

def leaves (left right : Bytes) : NodeForest NodeKey Account :=
  .node ⟨.account, left⟩ (some account) .nil (.node ⟨.account, right⟩ (some account) .nil .nil)

/-- A state with two accounts. -/
def state (root left right : Bytes) : StateTrie :=
  ⟨.node ⟨.account, root⟩ none (leaves left right) .nil, by simp [leaves, NodeForest.hashes]⟩

def old : StateTrie := state [1] [2] [3]

/-- Like the next two, it has an account in common with `old`. -/
def middle : StateTrie := state [4] [5] [3]

def recent : StateTrie := state [6] [7] [3]

/-- It has both accounts in common with `old`. -/
def rival : StateTrie := state [8] [2] [3]

/-- All there is in the states. -/
def nodes : Finset NodeKey :=
  Insert.insert ⟨.inner, [9]⟩
    ([[1], [2], [3], [4], [5], [6], [7], [8]].toFinset.image (⟨.account, ·⟩))

/-- A new processor. -/
def start (blocks : List StateTrie) : PruneProcessor := ⟨blocks, nodes, {1}, fun _ => none⟩

theorem state_subset {t : StateTrie} (ht : t ∈ [old, middle, recent, rival]) :
    ∀ k ∈ t.reachable, k ∈ nodes := by
  simp only [List.mem_cons, List.not_mem_nil, or_false] at ht
  rcases ht with rfl | rfl | rfl | rfl <;> decide

end TwoStates

/-! ## Counting -/

/-- The accounts are passed by: no address has 20 bytes. -/
theorem processLeaf_eq (db : Finset NodeKey) (markNoPrune : Bool) (nc : NodeCount) (a : Account) :
    processLeaf db markNoPrune nc a = nc := by
  have hne : a.key.length ≠ 20 := by
    rcases a.length_key with hlen | hnil
    · omega
    · simp [hnil]
  rw [processLeaf, if_neg hne]

theorem countBlockChainTrie_mark (ht : ∀ k ∈ t.nodes.hashes, k ∈ db) (nc : NodeCount) :
    countBlockChainTrie db t true nc = fun k => if k ∈ t.nodes.hashes then some 1 else nc k := by
  have hwalk := NodeForest.walk_mark (processLeaf_eq db true)
    (fun k hk => decide_eq_true (ht k hk)) nc
  rw [countBlockChainTrie, countTrie, enter, if_pos rfl, hwalk]

theorem countBlockChainTrie_of_isSome (db : Finset NodeKey) (t : StateTrie) (hk : (nc k).isSome) :
    countBlockChainTrie db t false nc k = nc k :=
  NodeForest.walk_scan_of_isSome (processLeaf_eq db false) t.nodes hk

theorem countBlockChainTrie_of_none (db : Finset NodeKey) (t : StateTrie) (hk : nc k = none) :
    countBlockChainTrie db t false nc k = none ∨
      countBlockChainTrie db t false nc k = some 0 ∧ k ∈ t.nodes.hashes :=
  NodeForest.walk_scan_of_none (processLeaf_eq db false) t.nodes hk

/-! ## The head -/

namespace PruneProcessor

/-- All of these nodes are in the database. -/
def Has (p : PruneProcessor) (ks : List NodeKey) : Prop := ∀ k ∈ ks, k ∈ p.chainDb

/-- What the processor relies on, and keeps.  In the map there are nodes of account tries, and
nothing but zeros while nobody prunes. -/
structure Safe (p : PruneProcessor) : Prop where
  head : p.Has p.head.reachable
  zero : ∀ k n, p.nodeCount k = some n → n = 0 ∧ k.kind = .account

theorem Safe.has_hashes (h : p.Safe) : p.Has p.head.nodes.hashes :=
  fun k hk => h.head k (List.mem_append_left _ hk)

theorem Safe.isSome_iff (h : p.Safe) : (p.nodeCount k).isSome ↔ p.nodeCount k = some 0 := by
  constructor
  · intro hsome
    obtain ⟨n, hn⟩ := Option.isSome_iff_exists.1 hsome
    rw [hn, (h.zero k n hn).1]
  · intro hzero
    rw [hzero]
    rfl

/-- **One pruning.**  It deletes what is in the map and not in the account trie of the head. -/
theorem Safe.mem_prune (h : p.Safe) :
    k ∈ p.prune.chainDb ↔
      k ∈ p.chainDb ∧ ((p.nodeCount k).isSome → k ∈ p.head.nodes.hashes) := by
  rw [prune, pruneData, Finset.mem_filter, countBlockChainTrie_mark h.has_hashes, h.isSome_iff]
  refine and_congr_right fun _ => ?_
  by_cases hk : k ∈ p.head.nodes.hashes
  · simp [hk]
  · simp [hk]

/-- The map after a pruning: the account trie of the head. -/
theorem Safe.nodeCount_prune (h : p.Safe) (k : NodeKey) :
    p.prune.nodeCount k = if k ∈ p.head.nodes.hashes then some 0 else none := by
  rw [prune, pruneData, countBlockChainTrie_mark h.has_hashes]
  by_cases hk : k ∈ p.head.nodes.hashes
  · simp [hk]
  simp only [hk, if_false]
  by_cases hsome : (p.nodeCount k).isSome
  · rw [if_pos (h.isSome_iff.1 hsome)]
  · rw [Option.not_isSome_iff_eq_none] at hsome
    simp [hsome]

@[simp] theorem prune_bodies (p : PruneProcessor) : p.prune.bodies = p.bodies := rfl

@[simp] theorem prune_head (p : PruneProcessor) : p.prune.head = p.head := rfl

theorem kind_of_mem_innerHashes (hk : k ∈ t.innerHashes) : k.kind = .inner := by
  obtain ⟨_, -, hk⟩ := List.mem_flatMap.1 hk
  obtain ⟨f, -, hk⟩ := List.mem_flatMap.1 hk
  exact f.kind_eq k hk

theorem Safe.nodeCount_inner (h : p.Safe) (hk : k.kind = .inner) : p.nodeCount k = none := by
  cases hn : p.nodeCount k with
  | none => rfl
  | some n =>
    have hacc := (h.zero k n hn).2
    rw [hk] at hacc
    cases hacc

/-- The nodes of the head survive. -/
theorem Safe.head_prune (h : p.Safe) : p.prune.Has p.head.reachable := by
  intro k hk
  refine h.mem_prune.2 ⟨h.head k hk, ?_⟩
  intro hsome
  rcases List.mem_append.1 hk with hacc | hinner
  · exact hacc
  · rw [h.nodeCount_inner (kind_of_mem_innerHashes hinner)] at hsome
    cases hsome

theorem Safe.prune (h : p.Safe) : p.prune.Safe where
  head := h.head_prune
  zero := by
    intro k n hn
    rw [h.nodeCount_prune] at hn
    split at hn
    · rename_i hk
      exact ⟨(Option.some.inj hn).symm, p.head.kind_eq k hk⟩
    · cases hn

end PruneProcessor

/-- A block is built on the head: `state.Commit` writes every node of the new state that is not a
node of the old one. -/
def Action.Builds (p : PruneProcessor) : Action → Prop
  | .insert state written => ∀ k ∈ state.reachable, k ∈ p.head.reachable ∨ k ∈ written
  | _ => True

namespace PruneProcessor

/-- One step. -/
theorem Safe.exec (h : p.Safe) (hb : a.Builds p) (hexec : a.exec p = .ok q) : q.Safe := by
  obtain ⟨_, _, rfl, rfl⟩ | ⟨i, root, rfl, -, rfl⟩ | ⟨rfl, rfl⟩ | ⟨_, i, rfl, rfl⟩ :=
    Action.exec_cases hexec
  · refine ⟨?_, h.zero⟩
    intro k hk
    rw [PruneProcessor.head, inserted, List.getLastD_concat] at hk
    rcases hb k hk with hold | hnew
    · exact Finset.mem_union_left _ (h.head k hold)
    · exact Finset.mem_union_right _ hnew
  · refine ⟨h.head, ?_⟩
    intro k n hn
    cases hold : p.nodeCount k with
    | some =>
      have hsame := countBlockChainTrie_of_isSome p.chainDb root (Option.isSome_of_eq_some hold)
      exact h.zero k n (hsame ▸ hn)
    | none =>
      rcases countBlockChainTrie_of_none p.chainDb root hold with hnone | ⟨hzero, hmem⟩
      · exact absurd (hnone.symm.trans hn) (by simp)
      · exact ⟨Option.some.inj (hn.symm.trans hzero), root.kind_eq k hmem⟩
  · exact h.prune
  · exact ⟨h.head, h.zero⟩

theorem Safe.run (h : p.Safe) (hb : Along (fun p a => a.Builds p) p acts)
    (hrun : run p acts = .ok p') : p'.Safe :=
  hb.keeps (fun _ _ _ hp hC hexec => hp.exec hC hexec) h hrun

/-- As `NewPruneProcessor` makes it. -/
def New (p : PruneProcessor) : Prop := p.nodeCount = fun _ => none

theorem New.safe (hnew : p.New) (hhead : p.Has p.head.reachable) : p.Safe := by
  refine ⟨hhead, ?_⟩
  intro k n hn
  rw [hnew] at hn
  cases hn

end PruneProcessor

/-- **Pruning never damages the head.**  A new processor starts with a head whose state is complete.
However its actions and the insertions of blocks take turns, the state of the head of the moment is
complete, and a pruning leaves it so. -/
theorem head_kept (acts : List Action) (hnew : p.New) (hhead : p.Has p.head.reachable)
    (hb : Along (fun p a => a.Builds p) p acts) (hrun : run p acts = .ok p') :
    p'.Has p'.head.reachable ∧ p'.prune.Has p'.head.reachable := by
  have hsafe := (hnew.safe hhead).run hb hrun
  exact ⟨hsafe.head, hsafe.head_prune⟩

namespace TwoStates

/-- A block is inserted between the scan and the pruning. -/
theorem head_kept_inserted :
    ∃ p', run (start [old]) [.count 0, .insert recent nodes, .prune] = .ok p' ∧
      p'.Has p'.head.reachable ∧ p'.prune.Has p'.head.reachable := by
  have hnew : (start [old]).New := rfl
  refine ⟨_, rfl, head_kept [.count 0, .insert recent nodes, .prune] hnew
    (state_subset (t := old) (by simp)) ?_ rfl⟩
  refine ⟨trivial, fun _ _ => ⟨?_, fun _ _ => ⟨trivial, fun _ _ => trivial⟩⟩⟩
  intro k hk
  exact .inr (state_subset (by simp) k hk)

/-- A block on `old` has been executed, and its state is complete.  After a pruning that deletes
what is left of `old` the chain goes over to this block, which has lost a leaf.  The mark of the
head ends there, so that the next pruning deletes the other leaf too. -/
theorem rival_damaged :
    (start [old, recent]).New ∧ (start [old, recent]).Has recent.reachable ∧
      (start [old, recent]).Has rival.reachable ∧
      ∃ p', run (start [old, recent]) [.count 0, .prune, .insert rival ∅] = .ok p' ∧
        ¬ p'.Has p'.head.reachable ∧
        ∃ k ∈ p'.head.reachable, k ∈ p'.chainDb ∧ k ∉ p'.prune.chainDb := by
  refine ⟨rfl, state_subset (by simp), state_subset (by simp), _, rfl, ?_,
    ⟨.account, [3]⟩, by decide, by decide, by decide⟩
  intro hhas
  exact absurd (hhas ⟨.account, [2]⟩ (by decide)) (by decide)

end TwoStates

/-! ## The blocks before the head -/

namespace PruneProcessor

/-- The states of the last `maxRemainTrie` blocks. -/
def window (p : PruneProcessor) : List StateTrie := p.blocks.drop (p.blocks.length - maxRemainTrie)

/-- The states of the last `maxRemainTrie` blocks are complete. -/
def Retained (p : PruneProcessor) : Prop := ∀ t ∈ p.window, p.Has t.reachable

theorem Retained.has_head (h : p.Retained) : p.Has p.head.reachable := by
  rcases List.eq_nil_or_concat p.blocks with hnil | ⟨blocks, t, hlast⟩
  · intro k hk
    simp [head, hnil, StateTrie.reachable, StateTrie.innerHashes, NodeForest.hashes,
      NodeForest.values] at hk
  · have hhead : p.head = t := by rw [head, hlast, List.concat_eq_append, List.getLastD_concat]
    rw [hhead]
    refine h t ?_
    rw [window, hlast, List.concat_eq_append, List.length_append, List.length_singleton,
      List.drop_append_of_le_length (by rw [maxRemainTrie]; omega)]
    exact List.mem_append_right _ (List.mem_singleton_self t)

/-- **What a pruning does to the window.** -/
theorem prune_retained_iff (h : p.Safe) (hr : p.Retained) :
    p.prune.Retained ↔ ∀ t ∈ p.window, ∀ k ∈ t.nodes.hashes, (p.nodeCount k).isSome →
      k ∈ p.head.nodes.hashes := by
  constructor
  · intro hret t ht k hk
    exact (h.mem_prune.1 (hret t ht k (List.mem_append_left _ hk))).2
  intro hapart t ht k hk
  refine h.mem_prune.2 ⟨hr t ht k hk, ?_⟩
  intro hsome
  rcases List.mem_append.1 hk with hacc | hinner
  · exact hapart t ht k hacc hsome
  · rw [h.nodeCount_inner (kind_of_mem_innerHashes hinner)] at hsome
    cases hsome

theorem mem_window_of_concat {s : StateTrie} (hq : q.blocks = p.blocks ++ [t]) (hs : s ∈ q.window) :
    s ∈ p.window ∨ s = t := by
  rw [window, hq, List.length_append, List.length_singleton,
    List.drop_append_of_le_length (by rw [maxRemainTrie]; omega), List.mem_append,
    List.mem_singleton] at hs
  refine hs.imp_left fun hold => ?_
  exact List.drop_subset_drop_left _ (by omega) hold

end PruneProcessor

/-- Only a pruning can damage the window. -/
theorem PruneProcessor.Retained.exec (h : p.Retained) (hs : p.Safe) (hb : a.Builds p)
    (hexec : a.exec p = .ok q) (ha : a ≠ .prune) : q.Retained := by
  have hsafe := hs.exec hb hexec
  obtain ⟨_, _, rfl, rfl⟩ | ⟨i, _, rfl, -, rfl⟩ | ⟨rfl, rfl⟩ | ⟨_, i, rfl, rfl⟩ :=
    Action.exec_cases hexec
  · intro t ht k hk
    rcases PruneProcessor.mem_window_of_concat rfl ht with hold | rfl
    · exact Finset.mem_union_left _ (h t hold k hk)
    · refine hsafe.head k ?_
      rw [PruneProcessor.head, inserted, List.getLastD_concat]
      exact hk
  · exact h
  · exact absurd rfl ha
  · exact h

/-! ## What is in the map -/

/-- The states whose nodes can be in the map: those scanned since the last pruning, and the head of
that time. -/
def seenAfter (seen : List StateTrie) (p : PruneProcessor) : Action → List StateTrie
  | .count i => (p.blocks[i]?).toList ++ seen
  | .prune => [p.head]
  | _ => seen

variable {seen : List StateTrie}

/-- Nothing but nodes of these states is in the map. -/
def PruneProcessor.Covered (p : PruneProcessor) (seen : List StateTrie) : Prop :=
  ∀ k, (p.nodeCount k).isSome → ∃ t ∈ seen, k ∈ t.nodes.hashes

theorem PruneProcessor.Covered.exec (h : p.Covered seen) (hs : p.Safe) (hexec : a.exec p = .ok q) :
    q.Covered (seenAfter seen p a) := by
  intro k hk
  obtain ⟨_, _, rfl, rfl⟩ | ⟨i, root, rfl, hroot, rfl⟩ | ⟨rfl, rfl⟩ | ⟨_, _, rfl, rfl⟩ :=
    Action.exec_cases hexec
  · exact h k hk
  · simp only [seenAfter, hroot, Option.toList_some, List.cons_append, List.nil_append,
      List.mem_cons, exists_eq_or_imp]
    by_cases hold : (p.nodeCount k).isSome
    · exact .inr (h k hold)
    rcases countBlockChainTrie_of_none p.chainDb root (Option.not_isSome_iff_eq_none.1 hold) with
      hnone | ⟨-, hmem⟩
    · simp only [counted, hnone] at hk
      cases hk
    · exact .inl hmem
  · refine ⟨p.head, List.mem_singleton_self _, ?_⟩
    by_contra hnot
    rw [hs.nodeCount_prune, if_neg hnot] at hk
    cases hk
  · exact h k hk

/-! ## When recent states are retained -/

/-- A condition on the states seen and the processor before every pruning of a run. -/
def AtPrunings (C : List StateTrie → PruneProcessor → Prop) :
    List StateTrie → PruneProcessor → List Action → Prop
  | _, _, [] => True
  | seen, p, a :: acts =>
    (a = .prune → C seen p) ∧ ∀ q, a.exec p = .ok q → AtPrunings C (seenAfter seen p a) q acts

/-- Whatever the account tries of the last `maxRemainTrie` blocks have in common with one of these
states belongs to the head. -/
def PruneProcessor.Apart (seen : List StateTrie) (p : PruneProcessor) : Prop :=
  ∀ t ∈ p.window, ∀ u ∈ seen, ∀ k ∈ t.nodes.hashes, k ∈ u.nodes.hashes → k ∈ p.head.nodes.hashes

/-- The window after an action, if it has been damaged by no pruning. -/
theorem PruneProcessor.Retained.exec_of_prune (h : p.Retained) (hs : p.Safe) (hb : a.Builds p)
    (hexec : a.exec p = .ok q) (hprune : a = .prune → p.prune.Retained) : q.Retained := by
  by_cases ha : a = .prune
  · subst ha
    cases hexec
    exact hprune rfl
  · exact h.exec hs hb hexec ha

theorem PruneProcessor.Retained.of_apart (h : p.Retained) (hs : p.Safe) (hc : p.Covered seen)
    (hb : Along (fun p a => a.Builds p) p acts) (hapart : AtPrunings Apart seen p acts) :
    AtPrunings (fun _ p => p.prune.Retained) seen p acts := by
  induction acts generalizing p seen with
  | nil => trivial
  | cons a _ ih =>
    have hfirst : a = .prune → p.prune.Retained := by
      intro ha
      refine (prune_retained_iff hs h).2 fun t ht k hk hsome => ?_
      obtain ⟨u, hu, hmem⟩ := hc k hsome
      exact hapart.1 ha t ht u hu k hk hmem
    refine ⟨hfirst, fun q hexec => ?_⟩
    exact ih (h.exec_of_prune hs hb.1 hexec hfirst) (hs.exec hb.1 hexec) (hc.exec hs hexec)
      (hb.2 q hexec) (hapart.2 q hexec)

/-- **When recent states are retained.**  A new processor starts with the last `maxRemainTrie`
states complete, and every block is built on the head.  These states are complete after every
pruning of a run if before each of them whatever their account tries have in common with a state
scanned since the last pruning, or with the head of that time, belongs to the head. -/
theorem retained_of_apart (acts : List Action) (hnew : p.New) (hr : p.Retained)
    (hb : Along (fun p a => a.Builds p) p acts)
    (hapart : AtPrunings PruneProcessor.Apart [] p acts) :
    AtPrunings (fun _ p => p.prune.Retained) [] p acts := by
  refine hr.of_apart (hnew.safe hr.has_head) (fun k hk => ?_) hb hapart
  rw [hnew] at hk
  cases hk

namespace TwoStates

/-- The first blocks have the state `old`, the following ones `middle`, and the head `recent`. -/
def chain (n m : Nat) : List StateTrie :=
  List.replicate n old ++ (List.replicate m middle ++ [recent])

theorem head_chain {n m : Nat} (hp : p.blocks = chain n m) : p.head = recent := by
  rw [PruneProcessor.head, hp, chain, ← List.append_assoc, List.getLastD_concat]

theorem mem_chain {n m : Nat} :
    t ∈ chain n m ↔ (n ≠ 0 ∧ t = old) ∨ (m ≠ 0 ∧ t = middle) ∨ t = recent := by
  simp only [chain, List.mem_append, List.mem_replicate, List.mem_singleton]

theorem retained_chain (n m : Nat) : (start (chain n m)).Retained := by
  intro t ht
  refine state_subset ?_
  rcases mem_chain.1 (List.mem_of_mem_drop ht) with ⟨-, rfl⟩ | ⟨-, rfl⟩ | rfl <;> simp

theorem window_chain {n m : Nat} (hp : p.blocks = chain (n + 2) m) (hnm : n + m = 999) :
    p.window = chain n m := by
  have hlen : (chain (n + 2) m).length - maxRemainTrie = 2 := by
    simp only [chain, List.length_append, List.length_replicate, List.length_singleton,
      maxRemainTrie]
    omega
  rw [PruneProcessor.window, hp, hlen]
  rfl

/-- A first pass on a chain of 1002 blocks scans blocks 0 and 1. -/
theorem passActions_chain :
    passActions true 0 0 1001 = [.count 0, .count 1, .prune, .deleteBodies 0 1, .count 2] := rfl

theorem builds_chain (blocks : List StateTrie) :
    Along (fun p a => a.Builds p) (start blocks) (passActions true 0 0 1001) := by
  rw [passActions_chain]
  exact ⟨trivial, fun _ _ => ⟨trivial, fun _ _ => ⟨trivial, fun _ _ => ⟨trivial, fun _ _ =>
    ⟨trivial, fun _ _ => trivial⟩⟩⟩⟩⟩

/-- What the later blocks have in common with blocks 0 and 1 belongs to the head. -/
theorem apart_chain :
    AtPrunings PruneProcessor.Apart [] (start (chain 2 999)) (passActions true 0 0 1001) := by
  rw [passActions_chain]
  refine ⟨by simp, fun q₁ h₁ => ⟨by simp, fun q₂ h₂ => ⟨fun _ t ht u hu k hk hmem => ?_,
    fun _ _ => ⟨by simp, fun _ _ => ⟨by simp, fun _ _ => trivial⟩⟩⟩⟩⟩
  cases Except.ok.inj h₁
  cases Except.ok.inj h₂
  have hu : u = old := by simpa using (show u ∈ [old, old] from hu)
  subst hu
  rw [window_chain (n := 0) (m := 999) rfl rfl, mem_chain] at ht
  rw [head_chain (n := 2) (m := 999) rfl]
  rcases ht with ⟨hne, -⟩ | ⟨-, rfl⟩ | rfl
  · exact absurd rfl hne
  · revert k
    decide
  · exact hk

/-- After the two scans. -/
def scanned (n m : Nat) : PruneProcessor := ((start (chain n m)).counted old).counted old

theorem scanned_safe (n m : Nat) (hn : 2 ≤ n) : (scanned n m).Safe := by
  obtain ⟨n, rfl⟩ := Nat.exists_eq_add_of_le' hn
  have hnew : (start (chain (n + 2) m)).New := rfl
  have hbuilds : Along (fun p a => a.Builds p) (start (chain (n + 2) m)) [.count 0, .count 1] :=
    ⟨trivial, fun _ _ => ⟨trivial, fun _ _ => trivial⟩⟩
  exact (hnew.safe (retained_chain (n + 2) m).has_head).run hbuilds rfl

/-- Blocks 0 and 1 have an account in common with all the later ones, the head among them. -/
theorem retained_of_apart_chain :
    AtPrunings (fun _ p => p.prune.Retained) [] (start (chain 2 999))
      (passActions true 0 0 1001) := by
  have hnew : (start (chain 2 999)).New := rfl
  exact retained_of_apart _ hnew (retained_chain 2 999) (builds_chain _) apart_chain

/-- The pass deletes the root that all the blocks before the head have in common with blocks 0
and 1. -/
theorem recent_state_deleted :
    (start (chain 1001 0)).New ∧ (start (chain 1001 0)).Retained ∧
      ∃ p', run (start (chain 1001 0)) (passActions true 0 0 1001) = .ok p' ∧ ¬ p'.Retained := by
  have hnew : (start (chain 1001 0)).New := rfl
  refine ⟨hnew, retained_chain 1001 0, ?_⟩
  refine ⟨((scanned 1001 0).prune.deleteBodies 0 1).counted old, rfl, ?_⟩
  intro hret
  have hwindow : old ∈ (((scanned 1001 0).prune.deleteBodies 0 1).counted old).window := by
    rw [window_chain (n := 999) (m := 0) rfl rfl]
    exact mem_chain.2 (.inl ⟨by omega, rfl⟩)
  have hkept : (⟨.account, [1]⟩ : NodeKey) ∈ (scanned 1001 0).prune.chainDb :=
    hret old hwindow _ (by decide)
  have hmem := ((scanned_safe 1001 0 (by omega)).mem_prune.1 hkept).2 (by decide)
  rw [head_chain (n := 1001) (m := 0) rfl] at hmem
  exact absurd hmem (by decide)

end TwoStates

end DataReduction

end NeatPoS
