import NeatPoS.Core.Calls

/-!
# What a call does

Every call of the staking code is a short list of `DbAction`s on the database: an object is created,
one of its fields is set, it is touched, a transaction hash is entered, or a set of addresses is
changed.  `Call.actions` computes the list from the state before the call, and `exec_eq_actions`
says that running it is running the call.  What has to be shown of all calls is then shown of five
actions.
-/

set_option autoImplicit false

namespace NeatPoS

/-! ## Objects after a change -/

namespace Edit

variable (e : Edit)

section

variable (o : StateObject)
include o

@[simp] theorem rooted_apply : (e.apply o).rooted = o.rooted := by
  cases e <;> rfl

@[simp] theorem tx_apply : (e.apply o).tx = o.tx := by
  cases e <;> rfl

@[simp] theorem suicided_apply : (e.apply o).suicided = o.suicided := by
  cases e <;> rfl

@[simp] theorem touched_apply : (e.apply o).touched = o.touched := by
  cases e <;> rfl

@[simp] theorem deleted_apply : (e.apply o).deleted = o.deleted := by
  cases e <;> rfl

@[simp] theorem onDirty_apply : (e.apply o).onDirty = o.onDirty := by
  cases e <;> rfl

end

/-- The value that a setter is called with is not a nil pointer. -/
def NotNil : Edit → Prop
  | accountProxiedBalance _ v => v ≠ none
  | delegateRewardBalance _ v => v ≠ none
  | _ => True

end Edit

namespace JournaledDB

variable {s : JournaledDB} {a b : Address} {o : StateObject}

theorem deleted_of_object (h : s.object a = some o) : o.deleted = false := by
  rw [object] at h
  split at h
  · split at h
    · simp at h
    · rename_i hd
      cases h
      simpa using hd
  · obtain ⟨_, -, rfl⟩ := Option.map_eq_some_iff.1 h
    rfl

theorem object_setStateObject_self (h : o.deleted = false) :
    (s.setStateObject a o).object a = some o := by
  simp [object, setStateObject, h]

theorem object_setStateObject_of_ne (h : b ≠ a) : (s.setStateObject a o).object b = s.object b := by
  simp [object, setStateObject, Function.update_of_ne h]

theorem object_mark_self (h : o.deleted = false) :
    (s.mark a o).object a = some { o with onDirty := false } := by
  simp [object, mark, h]

theorem object_mark_of_ne (h : b ≠ a) : (s.mark a o).object b = s.object b := by
  simp [object, mark, Function.update_of_ne h]

theorem stateObjectsDirty_mark_of_used (h : o.onDirty = false) :
    (s.mark a o).stateObjectsDirty = s.stateObjectsDirty := by
  simp [mark, h]

theorem object_putNew_self (h : o.deleted = false) : (s.putNew a o).object a = some o := by
  simp [object, putNew, h]

theorem object_putNew_of_ne (h : b ≠ a) : (s.putNew a o).object b = s.object b := by
  simp [object, putNew, Function.update_of_ne h]

/-- The object `GetOrNewStateObject` returns. -/
def objectOrNew (s : JournaledDB) (a : Address) : StateObject := (s.object a).getD .new

theorem object_getOrNewStateObject (s : JournaledDB) (a : Address) :
    (s.getOrNewStateObject a).object a = some (s.objectOrNew a) := by
  rw [getOrNewStateObject, objectOrNew]
  split
  · rename_i o h
    rw [h]
    rfl
  · rename_i h
    rw [h]
    exact object_putNew_self rfl

theorem edit_of_object (h : s.object a = some o) (e : Edit) :
    s.edit a e = (s.log (.change a (e.prev o))).mark a (e.apply o) := by
  rw [edit, h]

theorem object_edit (h : s.object a = some o) (e : Edit) :
    (s.edit a e).object a = some { e.apply o with onDirty := false } := by
  rw [edit_of_object h]
  exact object_mark_self (by simp [deleted_of_object h])

theorem touch_of_object (h : s.object a = some o) :
    s.touch a = (s.log (.touchChange a o.touched !o.onDirty)).mark a { o with touched := true } := by
  rw [touch, h]

theorem markTX_of_object (h : s.object a = some o) (kind : TxKind) (txHash : TxHash) :
    s.markTX kind a txHash = (s.log (.addTXChange kind a txHash)).setStateObject a
      (o.setPending kind (insert txHash (o.tx kind).dirty)) := by
  rw [markTX, h]

end JournaledDB

/-! ## Actions -/

/-- A change that leaves at most one entry in the journal. -/
inductive DbAction where
  /-- `createObject`, where there is none -/
  | create (addr : Address)
  | edit (addr : Address) (e : Edit)
  | touch (addr : Address)
  | markTX (kind : TxKind) (addr : Address) (txHash : TxHash)
  | changeSet (name : SetName) (c : SetCall)

namespace DbAction

/-- The state after an action. -/
def run (s : JournaledDB) : DbAction → JournaledDB
  | create addr => (s.log (.createObjectChange addr)).putNew addr .new
  | edit addr e => s.edit addr e
  | touch addr => s.touch addr
  | markTX kind addr txHash => s.markTX kind addr txHash
  | changeSet name c => { s with sets := Function.update s.sets name (c.apply (s.sets name)) }

/-- The state after a list of actions. -/
def runAll (s : JournaledDB) (acts : List DbAction) : JournaledDB := acts.foldl run s

variable (s : JournaledDB)

@[simp] theorem runAll_nil : runAll s [] = s := rfl

@[simp] theorem runAll_cons (act : DbAction) (acts : List DbAction) :
    runAll s (act :: acts) = runAll (act.run s) acts := rfl

theorem runAll_append (acts acts' : List DbAction) :
    runAll s (acts ++ acts') = runAll (runAll s acts) acts' := List.foldl_append

/-- What holds of every action of a list, in the state in which it is run. -/
def AllAt (P : JournaledDB → DbAction → Prop) : JournaledDB → List DbAction → Prop
  | _, [] => True
  | s, act :: acts => P s act ∧ AllAt P (act.run s) acts

/-- An object is created only where there is none, and otherwise there is one; no entry is set to
nil. -/
def Valid (s : JournaledDB) : DbAction → Prop
  | create addr => s.object addr = none
  | edit addr e => (s.object addr).isSome ∧ e.NotNil
  | touch addr => (s.object addr).isSome
  | markTX _ addr _ => (s.object addr).isSome
  | changeSet _ _ => True

open JournaledDB in
/-- What an action does to an object that is there. -/
theorem object_run_cases {s : JournaledDB} {act : DbAction} {a : Address} {o : StateObject}
    (hv : act.Valid s) (ho : s.object a = some o) :
    (act.run s).object a = some o ∨
      (∃ e, e.NotNil ∧ act = edit a e ∧
        (act.run s).object a = some { e.apply o with onDirty := false }) ∨
      (act = touch a ∧
        (act.run s).object a = some { o with touched := true, onDirty := false }) ∨
      ∃ kind txHash, act = markTX kind a txHash ∧
        (act.run s).object a = some (o.setPending kind (insert txHash (o.tx kind).dirty)) := by
  have hd := deleted_of_object ho
  cases act with
  | create addr =>
    have hne : a ≠ addr := by
      rintro rfl
      rw [show s.object a = none from hv] at ho
      simp at ho
    exact .inl ((object_putNew_of_ne hne).trans ho)
  | edit addr e =>
    by_cases h : a = addr
    · subst h
      exact .inr (.inl ⟨e, hv.2, rfl, object_edit ho e⟩)
    · left
      obtain ⟨o', ho'⟩ := Option.isSome_iff_exists.1 hv.1
      rw [run, edit_of_object ho']
      exact (object_mark_of_ne h).trans ho
  | touch addr =>
    by_cases h : a = addr
    · subst h
      refine .inr (.inr (.inl ⟨rfl, ?_⟩))
      rw [run, touch_of_object ho]
      exact object_mark_self hd
    · left
      obtain ⟨o', ho'⟩ := Option.isSome_iff_exists.1 hv
      rw [run, touch_of_object ho']
      exact (object_mark_of_ne h).trans ho
  | markTX kind addr txHash =>
    by_cases h : a = addr
    · subst h
      refine .inr (.inr (.inr ⟨kind, txHash, rfl, ?_⟩))
      rw [run, markTX_of_object ho]
      exact object_setStateObject_self hd
    · left
      obtain ⟨o', ho'⟩ := Option.isSome_iff_exists.1 hv
      rw [run, markTX_of_object ho']
      exact (object_setStateObject_of_ne h).trans ho
  | changeSet => exact .inl ho

end DbAction

namespace Call

open JournaledDB DbAction

/-- `GetOrNewStateObject`. -/
def creation (s : JournaledDB) (addr : Address) : List DbAction :=
  if (s.object addr).isNone then [.create addr] else []

/-- `stateObject.AddBalance` and its like. -/
def addActions (field : AmountField) (addr : Address) (amount : Int) (o : StateObject) :
    List DbAction :=
  if amount = 0 then if o.empty then [.touch addr] else []
  else [.edit addr (.amount field (o.data.amount field + amount))]

/-- `stateObject.SubBalance` and its like. -/
def subActions (field : AmountField) (addr : Address) (amount : Int) (o : StateObject) :
    List DbAction :=
  if amount = 0 then [] else [.edit addr (.amount field (o.data.amount field - amount))]

/-- The actions of a call. -/
def actions (s : JournaledDB) : Call → Except Panic (List DbAction)
  | add field addr amount =>
    .ok (creation s addr ++ addActions field addr amount (s.objectOrNew addr))
  | sub field addr amount =>
    .ok (creation s addr ++ subActions field addr amount (s.objectOrNew addr))
  | set field addr amount => .ok (creation s addr ++ [.edit addr (.amount field amount)])
  | addAvailableRewardBalance addr amount =>
    .ok ((s.object addr).elim [] (addActions .availableRewardBalance addr amount))
  | subAvailableRewardBalance addr amount =>
    .ok ((s.object addr).elim [] (subActions .availableRewardBalance addr amount))
  | setNonce addr n => .ok (creation s addr ++ [.edit addr (.nonce n)])
  | addSideChainDepositBalance addr chainId amount =>
    let o := s.objectOrNew addr
    .ok (creation s addr ++
      if amount = 0 then if o.empty then [.touch addr] else []
      else [.edit addr (.sideChainDepositBalance chainId
        (o.sideChainDepositBalance chainId + amount))])
  | subSideChainDepositBalance addr chainId amount =>
    let o := s.objectOrNew addr
    .ok (creation s addr ++
      if amount = 0 then []
      else [.edit addr (.sideChainDepositBalance chainId
        (o.sideChainDepositBalance chainId - amount))])
  | setSideChainDepositBalance addr chainId amount =>
    .ok (creation s addr ++ [.edit addr (.sideChainDepositBalance chainId amount)])
  | addTX kind addr txHash => .ok (creation s addr ++ [.markTX kind addr txHash])
  | addByUser kind addr user amount =>
    let o := s.objectOrNew addr
    .ok (creation s addr ++
      .edit addr (.accountProxiedBalance user (some (kind.addTo amount (o.proxied.get user)))) ::
        addActions kind.total addr amount o)
  | subByUser kind addr user amount =>
    let o := s.objectOrNew addr
    .ok (creation s addr ++
      .edit addr (.accountProxiedBalance user
        (some (kind.addTo (-amount) (o.proxied.get user)))) ::
        subActions kind.total addr amount o)
  | addRewardBalanceByDelegateAddress addr deleAddress amount =>
    let o := s.objectOrNew addr
    .ok (creation s addr ++
      .edit addr (.delegateRewardBalance deleAddress
        (some ((o.reward.get deleAddress).getD 0 + amount))) ::
        addActions .rewardBalance addr amount o)
  | subRewardBalanceByDelegateAddress addr deleAddress amount =>
    let o := s.objectOrNew addr
    match o.reward.get deleAddress with
    | none => .error (.explicit
        "you can't subtract the amount from nil balance, check the code, this should not happen")
    | some rewardBalance =>
      .ok (creation s addr ++
        .edit addr (.delegateRewardBalance deleAddress (some (rewardBalance - amount))) ::
          subActions .rewardBalance addr amount o)
  | applyForCandidate addr p c =>
    .ok (creation s addr ++
      [.edit addr (.candidate true), .edit addr (.commission c), .edit addr (.pubkey p)])
  | cancelCandidate addr allRefund =>
    .ok (creation s addr ++ .edit addr (.candidate false) :: .edit addr (.pubkey "") ::
      if allRefund then [.edit addr (.commission 0)] else [])
  | setCommission addr c => .ok (creation s addr ++ [.edit addr (.commission c)])
  | setBanned addr b => .ok (creation s addr ++ [.edit addr (.banned b)])
  | getOrNew addr => .ok (creation s addr)
  | changeSet name c => .ok [.changeSet name c]

variable (s : JournaledDB) (addr : Address)

theorem runAll_creation : runAll s (creation s addr) = s.getOrNewStateObject addr := by
  rw [creation, getOrNewStateObject]
  cases h : s.object addr with
  | none | some => rfl

variable {s addr} {o : StateObject}

theorem addToObject_eq (h : s.object addr = some o) (field : AmountField) (amount : Int) :
    s.addToObject field addr amount = runAll s (addActions field addr amount o) := by
  simp only [addToObject, h, addActions]
  split
  · split <;> rfl
  · rfl

theorem subFromObject_eq (h : s.object addr = some o) (field : AmountField) (amount : Int) :
    s.subFromObject field addr amount = runAll s (subActions field addr amount o) := by
  simp only [subFromObject, h, subActions]
  split <;> rfl

/-- The entries of an account are no part of its data. -/
theorem addActions_congr {o' : StateObject} (h : o'.data = o.data) (field : AmountField)
    (amount : Int) : addActions field addr amount o' = addActions field addr amount o := by
  rw [addActions, addActions, StateObject.empty, StateObject.empty, h]

theorem subActions_congr {o' : StateObject} (h : o'.data = o.data) (field : AmountField)
    (amount : Int) : subActions field addr amount o' = subActions field addr amount o := by
  rw [subActions, subActions, h]

/-- **A call is its actions.** -/
theorem exec_eq_actions (s : JournaledDB) (c : Call) : c.exec s = (c.actions s).map (runAll s) := by
  have hobj := fun addr => object_getOrNewStateObject s addr
  have hedit := fun addr e => object_edit (hobj addr) e
  cases c with
  | add _ addr =>
    simp only [exec, actions, Except.map, runAll_append, runAll_creation,
      addToObject_eq (hobj addr)]
  | sub _ addr =>
    simp only [exec, actions, Except.map, runAll_append, runAll_creation,
      subFromObject_eq (hobj addr)]
  | addAvailableRewardBalance addr =>
    cases h : s.object addr with
    | none => simp [exec, actions, Except.map, addToObject, h]
    | some => simp [exec, actions, Except.map, addToObject_eq h, h]
  | subAvailableRewardBalance addr =>
    cases h : s.object addr with
    | none => simp [exec, actions, Except.map, subFromObject, h]
    | some => simp [exec, actions, Except.map, subFromObject_eq h, h]
  | addSideChainDepositBalance addr =>
    simp only [exec, actions, Except.map, runAll_append, runAll_creation, addSideChainToObject,
      hobj addr]
    split
    · split <;> rfl
    · rfl
  | subSideChainDepositBalance addr =>
    simp only [exec, actions, Except.map, runAll_append, runAll_creation, subSideChainFromObject,
      hobj addr]
    split <;> rfl
  | addByUser _ addr | addRewardBalanceByDelegateAddress addr =>
    simp only [exec, actions, Except.map, runAll_append, runAll_creation, hobj addr,
      Option.bind_some, runAll_cons, DbAction.run, addToObject_eq (hedit addr _)]
    rw [addActions_congr rfl]
    rfl
  | subByUser _ addr =>
    simp only [exec, actions, Except.map, runAll_append, runAll_creation, hobj addr,
      Option.bind_some, runAll_cons, DbAction.run, subFromObject_eq (hedit addr _)]
    rw [subActions_congr rfl]
    rfl
  | subRewardBalanceByDelegateAddress addr deleAddress =>
    simp only [exec, actions, hobj addr, Option.bind_some]
    cases (s.objectOrNew addr).reward.get deleAddress with
    | none => rfl
    | some =>
      simp only [Except.map, runAll_append, runAll_creation, runAll_cons, DbAction.run,
        subFromObject_eq (hedit addr _)]
      rw [subActions_congr rfl]
      rfl
  | cancelCandidate _ allRefund =>
    simp only [exec, actions, Except.map, runAll_append, runAll_creation, runAll_cons, DbAction.run]
    cases allRefund <;> rfl
  | _ =>
    simp only [exec, actions, Except.map, runAll_append, runAll_creation, runAll_cons, runAll_nil,
      DbAction.run]

/-! ### The actions of a call are valid -/

variable {s : JournaledDB} {addr : Address} {acts : List DbAction} {o : StateObject}

theorem allAt_creation_append {P : JournaledDB → DbAction → Prop}
    (hcreate : s.object addr = none → P s (.create addr))
    (h : AllAt P (s.getOrNewStateObject addr) acts) : AllAt P s (creation s addr ++ acts) := by
  rw [← runAll_creation] at h
  rw [creation] at h ⊢
  cases ho : s.object addr with
  | none =>
    simp only [ho, Option.isNone_none, if_true] at h ⊢
    exact ⟨hcreate ho, h⟩
  | some =>
    simp only [ho, Option.isNone_some, Bool.false_eq_true, if_false] at h ⊢
    exact h

/-- Setters of an object that is there, one after the other. -/
theorem allAt_edits
    (h : s.object addr = some o) (es : List Edit) (hes : ∀ e ∈ es, e.NotNil)
    (hacts : ∀ s' o', s'.object addr = some o' → AllAt Valid s' acts) :
    AllAt Valid s (es.map (DbAction.edit addr) ++ acts) := by
  induction es generalizing s o with
  | nil => exact hacts s o h
  | cons e _ ih =>
    refine ⟨⟨by rw [h]; rfl, hes e (List.mem_cons_self ..)⟩, ?_⟩
    exact ih (object_edit h e) fun e' he' => hes e' (List.mem_cons_of_mem e he')

theorem allAt_addActions
    (h : s.object addr = some o) (field : AmountField) (amount : Int) (o' : StateObject) :
    AllAt Valid s (addActions field addr amount o') := by
  have hlive : (s.object addr).isSome = true := by rw [h]; rfl
  rw [addActions]
  split
  · split
    · exact ⟨hlive, trivial⟩
    · trivial
  · exact ⟨⟨hlive, trivial⟩, trivial⟩

theorem allAt_subActions
    (h : s.object addr = some o) (field : AmountField) (amount : Int) (o' : StateObject) :
    AllAt Valid s (subActions field addr amount o') := by
  have hlive : (s.object addr).isSome = true := by rw [h]; rfl
  rw [subActions]
  split
  · trivial
  · exact ⟨⟨hlive, trivial⟩, trivial⟩

theorem actions_valid {c : Call} (h : c.actions s = .ok acts) : AllAt Valid s acts := by
  have hobj := fun addr => object_getOrNewStateObject s addr
  have hlive : ∀ addr, ((s.getOrNewStateObject addr).object addr).isSome = true := by
    intro addr
    rw [hobj addr]
    rfl
  have hone : ∀ addr e, Edit.NotNil e →
      AllAt Valid s (creation s addr ++ [DbAction.edit addr e]) := fun addr e he =>
    allAt_creation_append id ⟨⟨hlive addr, he⟩, trivial⟩
  have hentry : ∀ addr e rest, Edit.NotNil e →
      (∀ s' o', s'.object addr = some o' → AllAt Valid s' rest) →
      AllAt Valid s (creation s addr ++ DbAction.edit addr e :: rest) := fun addr e rest he hrest =>
    allAt_creation_append id ⟨⟨hlive addr, he⟩, hrest _ _ (object_edit (hobj addr) e)⟩
  cases c with
  | add _ addr =>
    cases h
    exact allAt_creation_append id (allAt_addActions (hobj addr) ..)
  | sub _ addr =>
    cases h
    exact allAt_creation_append id (allAt_subActions (hobj addr) ..)
  | set _ addr | setNonce addr | setSideChainDepositBalance addr | setCommission addr
  | setBanned addr =>
    cases h
    exact hone addr _ trivial
  | addAvailableRewardBalance addr =>
    cases h
    cases ho : s.object addr with
    | none => trivial
    | some => exact allAt_addActions ho ..
  | subAvailableRewardBalance addr =>
    cases h
    cases ho : s.object addr with
    | none => trivial
    | some => exact allAt_subActions ho ..
  | addSideChainDepositBalance addr =>
    cases h
    refine allAt_creation_append id ?_
    split
    · split
      · exact ⟨hlive addr, trivial⟩
      · trivial
    · exact ⟨⟨hlive addr, trivial⟩, trivial⟩
  | subSideChainDepositBalance addr =>
    cases h
    refine allAt_creation_append id ?_
    split
    · trivial
    · exact ⟨⟨hlive addr, trivial⟩, trivial⟩
  | addTX _ addr =>
    cases h
    exact allAt_creation_append id ⟨hlive addr, trivial⟩
  | addByUser _ addr | addRewardBalanceByDelegateAddress addr =>
    cases h
    exact hentry addr _ _ (by simp [Edit.NotNil]) fun s' o' h' => allAt_addActions h' ..
  | subByUser _ addr =>
    cases h
    exact hentry addr _ _ (by simp [Edit.NotNil]) fun s' o' h' => allAt_subActions h' ..
  | subRewardBalanceByDelegateAddress addr =>
    rw [actions] at h
    split at h
    · simp at h
    · cases h
      exact hentry addr _ _ (by simp [Edit.NotNil]) fun s' o' h' => allAt_subActions h' ..
  | applyForCandidate addr p c =>
    cases h
    refine allAt_creation_append id ?_
    exact allAt_edits (hobj addr) [.candidate true, .commission c, .pubkey p]
      (by simp [Edit.NotNil]) fun s' o' h' => trivial
  | cancelCandidate addr allRefund =>
    cases h
    refine allAt_creation_append id ?_
    refine allAt_edits (hobj addr) [.candidate false, .pubkey ""] (by simp [Edit.NotNil])
      fun s' o' h' => ?_
    cases allRefund with
    | true => exact ⟨⟨by rw [h']; rfl, trivial⟩, trivial⟩
    | false => trivial
  | getOrNew addr =>
    cases h
    rw [← List.append_nil (creation s addr)]
    exact allAt_creation_append id trivial
  | changeSet =>
    cases h
    exact ⟨trivial, trivial⟩

/-- What every valid action keeps, every call keeps. -/
theorem exec_preserves {I : JournaledDB → Prop}
    (hI : ∀ s act, DbAction.Valid s act → I s → I (act.run s)) {s' : JournaledDB} {c : Call}
    (h : c.exec s = .ok s') (hs : I s) : I s' := by
  have hall : ∀ (acts : List DbAction) (s : JournaledDB), AllAt Valid s acts → I s →
      I (runAll s acts) := by
    intro acts
    induction acts with
    | nil => exact fun s _ hs => hs
    | cons act _ ih => exact fun s hv hs => ih (act.run s) hv.2 (hI s act hv.1 hs)
  rw [exec_eq_actions] at h
  cases ha : c.actions s with
  | error => simp [ha, Except.map] at h
  | ok acts =>
    rw [ha] at h
    cases h
    exact hall acts s (actions_valid ha) hs

end Call

end NeatPoS
