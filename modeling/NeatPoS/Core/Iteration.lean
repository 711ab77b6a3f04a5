import NeatPoS.Core.Actions

/-!
# Whom `ForEachProxied` visits

`ForEachProxied` goes through the keys of the proxied trie of a candidate and hands each of them,
with its amounts, to a callback.  The amounts are the current ones: what is in memory is preferred
to what is in the trie, and the callback may change it meanwhile (`visits_current`).  The keys are
those of the trie, which is written by `Finalise` only.  So a user whose entry was made since then
is not visited.

A trie has the hashes of its keys.  `ForEachProxied` asks the account trie for the address behind a
hash, not the proxied trie, and if that does not know it the callback is given the zero address: this
is what happens to a user that has no account, until the next `Commit`.

There is also a way to panic: the entry of a key of the trie is nil in memory.

The callback is anything that is made of calls of the database.
-/

set_option autoImplicit false

namespace NeatPoS

open JournaledDB

/-- Where `GetKey` of the account trie looks for the address behind a hash. -/
structure Preimages where
  /-- `secKeyCache`: the addresses that were written to the account trie since it was opened, copied
  or committed. -/
  secKeyCache : Finset Address
  /-- Those in the database, which a trie leaves there when it is committed. -/
  stored : Finset Address

namespace Preimages

/-- `SecureTrie.GetKey`, of the hash of an address. -/
def getKey (p : Preimages) (key : Address) : Option Address :=
  if key ∈ p.secKeyCache ∪ p.stored then some key else none

/-- The address that `ForEachProxied` takes for a key of the trie: `common.BytesToAddress` of nil is
the zero address. -/
def handed (p : Preimages) (key : Address) : Address := (p.getKey key).getD (List.replicate 32 0)

end Preimages

/-- A callback that returns true: what it does to the database, by means of calls. -/
structure Callback where
  run : JournaledDB → Address → AccountProxiedBalance → JournaledDB
  calls : ∀ s key apb, ∃ cs : List Call, cs.foldlM (fun s c => c.exec s) s = .ok (run s key apb)

/-- The callback that does nothing. -/
def Callback.idle : Callback := ⟨fun s _ _ => s, fun _ _ _ => ⟨[], rfl⟩⟩

/-- A call of the callback: its arguments, and the state it was called in. -/
structure Visit where
  key : Address
  amounts : AccountProxiedBalance
  state : JournaledDB

namespace JournaledDB

/-- `GetProxiedBalanceByUser`, `GetDepositProxiedBalanceByUser` and
`GetPendingRefundBalanceByUser`. -/
def entry (s : JournaledDB) (addr user : Address) : AccountProxiedBalance :=
  ((s.object addr).bind fun o => o.proxied.get user).getD ⟨0, 0, 0⟩

/-- The amounts that the callback is given for a key: the dirty ones, or those of the iterator. -/
def iteratedEntry (s : JournaledDB) (addr key : Address) (value : Option AccountProxiedBalance) :
    Except Panic AccountProxiedBalance :=
  match (s.object addr).bind fun o => o.proxied.dirty.lookup key with
  | some none => .error .nilDereference
  | some (some apb) => .ok apb
  | none => .ok (value.getD ⟨0, 0, 0⟩)

/-- The loop of `ForEachProxied`, with the keys in the order of the iterator. -/
def visitEach (p : Preimages) (cb : Callback) (addr : Address)
    (trie : Address → Option AccountProxiedBalance) :
    List Address → JournaledDB → Except Panic (List Visit × JournaledDB)
  | [], s => .ok ([], s)
  | hashed :: keys, s => do
    let key := p.handed hashed
    let apb ← s.iteratedEntry addr key (trie hashed)
    let (visits, s') ← visitEach p cb addr trie keys (cb.run s key apb)
    .ok (⟨key, apb, s⟩ :: visits, s')

/-- `ForEachProxied`. -/
def forEachProxied (p : Preimages) (cb : Callback) (keys : List Address) (s : JournaledDB)
    (addr : Address) : Except Panic (List Visit × JournaledDB) :=
  match s.object addr with
  | none => .ok ([], s)
  | some so => visitEach p cb addr so.proxied.base keys s

/-- The iterator goes through the keys of the proxied trie, each of them once. -/
def Iterates (keys : List Address) (s : JournaledDB) (addr : Address) : Prop :=
  keys.Nodup ∧ ∀ so, s.object addr = some so → ∀ key, key ∈ keys ↔ (so.proxied.base key).isSome

/-- Whatever the callback does, every user that has an entry is visited once, and every visit is
with the amounts the user has at that time. -/
def VisitsAll (p : Preimages) (keys : List Address) (s : JournaledDB) (addr : Address) : Prop :=
  ∀ cb : Callback, ∃ visits s', forEachProxied p cb keys s addr = .ok (visits, s') ∧
    (∀ user, (s.entry addr user).isEmpty = false → (visits.map Visit.key).count user = 1) ∧
      ∀ v ∈ visits, v.amounts = v.state.entry addr v.key

/-- The account trie knows the addresses of the keys. -/
def Known (p : Preimages) (trie : Address → Option AccountProxiedBalance) : Prop :=
  ∀ key, (trie key).isSome → p.handed key = key

/-! ## The loop -/

/-- The trie is the given one, and none of its keys is nil in memory. -/
def Readable (s : JournaledDB) (addr : Address) (trie : Address → Option AccountProxiedBalance) :
    Prop :=
  ∃ o, s.object addr = some o ∧ o.proxied.base = trie ∧
    ∀ key, (trie key).isSome → o.proxied.dirty.lookup key ≠ some none

variable {p : Preimages} {s s' : JournaledDB} {addr : Address}
  {trie : Address → Option AccountProxiedBalance}

theorem Readable.run (h : Readable s addr trie) {act : DbAction} (hv : act.Valid s) :
    Readable (act.run s) addr trie := by
  obtain ⟨o, ho, hbase, hnil⟩ := h
  rcases DbAction.object_run_cases hv ho with h | ⟨e, he, -, h⟩ | ⟨-, h⟩ | ⟨_, _, -, h⟩
  · exact ⟨o, h, hbase, hnil⟩
  · refine ⟨_, h, ?_, fun key hkey => ?_⟩
    · rw [← hbase]
      cases e with
      | accountProxiedBalance k v => exact o.proxied.base_set k v
      | _ => rfl
    · cases e with
      | accountProxiedBalance k v =>
        change (o.proxied.set k v).dirty.lookup key ≠ some none
        rw [EntryCache.dirty_set]
        by_cases hk : key = k
        · subst hk
          rw [Finmap.lookup_insert]
          exact fun hv => he (Option.some.inj hv)
        · rw [Finmap.lookup_insert_of_ne _ hk]
          exact hnil key hkey
      | _ => exact hnil key hkey
  · exact ⟨_, h, hbase, hnil⟩
  · exact ⟨_, h, hbase, hnil⟩

theorem Readable.calls (h : Readable s addr trie) (cs : List Call)
    (hcs : cs.foldlM (fun s c => c.exec s) s = .ok s') : Readable s' addr trie := by
  induction cs generalizing s with
  | nil =>
    cases hcs
    exact h
  | cons c _ ih =>
    rw [List.foldlM_cons] at hcs
    cases hc : c.exec s with
    | error => simp [hc, bind, Except.bind] at hcs
    | ok =>
      rw [hc] at hcs
      exact ih (Call.exec_preserves (fun s act hv hs => Readable.run hs hv) hc h) hcs

variable {key : Address}

/-- A key of the trie that is not nil in memory is shown with its current amounts. -/
theorem Readable.iteratedEntry (h : Readable s addr trie) (hkey : (trie key).isSome) :
    s.iteratedEntry addr key (trie key) = .ok (s.entry addr key) := by
  obtain ⟨o, ho, hbase, hnil⟩ := h
  simp only [JournaledDB.iteratedEntry, entry, ho, Option.bind_some, EntryCache.get]
  cases hd : o.proxied.dirty.lookup key with
  | none =>
    rw [o.proxied.committed_of_base (hbase ▸ hkey), hbase]
  | some v =>
    cases v with
    | none => exact absurd hd (hnil key hkey)
    | some => rfl

variable {keys : List Address}

theorem visitEach_cons {cb : Callback} (hkey : p.handed key = key) :
    visitEach p cb addr trie (key :: keys) s = (do
      let apb ← s.iteratedEntry addr key (trie key)
      let (visits, s') ← visitEach p cb addr trie keys (cb.run s key apb)
      .ok (⟨key, apb, s⟩ :: visits, s')) := by
  rw [visitEach, hkey]

/-- **The loop visits the keys of the trie with their current amounts.** -/
theorem visits_current (cb : Callback) (hknown : Known p trie)
    (hkeys : ∀ key ∈ keys, (trie key).isSome) (h : Readable s addr trie) :
    ∃ visits s', visitEach p cb addr trie keys s = .ok (visits, s') ∧ visits.map Visit.key = keys ∧
      ∀ v ∈ visits, v.amounts = v.state.entry addr v.key := by
  induction keys generalizing s with
  | nil => exact ⟨[], s, rfl, rfl, by simp⟩
  | cons key _ ih =>
    obtain ⟨cs, hcs⟩ := cb.calls s key (s.entry addr key)
    obtain ⟨visits, s', hrest, hmap, hcurrent⟩ :=
      ih (fun k hk => hkeys k (List.mem_cons_of_mem key hk)) (h.calls cs hcs)
    refine ⟨⟨key, s.entry addr key, s⟩ :: visits, s', ?_, by simp [hmap], ?_⟩
    · have hkey := hkeys key (List.mem_cons_self ..)
      rw [visitEach_cons (hknown key hkey), h.iteratedEntry hkey]
      simp only [bind, Except.bind, hrest]
    · intro v hv
      rcases List.mem_cons.1 hv with rfl | hv
      · rfl
      · exact hcurrent v hv

/-- A key that is nil in memory stops the loop, if nobody changes it before. -/
theorem visitEach_idle_panics (hknown : Known p trie)
    (hkeys : ∀ key ∈ keys, (trie key).isSome) (hkey : key ∈ keys)
    (hnil : ∃ o, s.object addr = some o ∧ o.proxied.dirty.lookup key = some none) :
    visitEach p .idle addr trie keys s = .error .nilDereference := by
  obtain ⟨o, ho, hd⟩ := hnil
  induction keys with
  | nil => simp at hkey
  | cons k keys ih =>
    rw [visitEach_cons (hknown k (hkeys k (List.mem_cons_self ..)))]
    rcases List.mem_cons.1 hkey with rfl | hmem
    · simp [iteratedEntry, ho, hd, bind, Except.bind]
    have hrest : ∀ apb, visitEach p .idle addr trie keys (Callback.idle.run s k apb) =
        .error .nilDereference :=
      fun _ => ih (fun key hkey => hkeys key (List.mem_cons_of_mem k hkey)) hmem
    simp only [hrest, iteratedEntry]
    cases (s.object addr).bind fun o => o.proxied.dirty.lookup k with
    | none => rfl
    | some v => cases v <;> rfl

theorem forEachProxied_of_object {so : StateObject} (h : s.object addr = some so) (cb : Callback)
    (keys : List Address) :
    forEachProxied p cb keys s addr = visitEach p cb addr so.proxied.base keys s := by
  rw [forEachProxied, h]

/-- **Whom `ForEachProxied` visits**, if the account trie knows the addresses.  All users with an entry
are visited if and only if their entries are in the trie, and no entry that is in the trie is nil in
memory. -/
theorem forEachProxied_visits_iff (p : Preimages) (keys : List Address) (s : JournaledDB)
    (addr : Address) (hkeys : Iterates keys s addr)
    (hknown : ∀ so, s.object addr = some so → Known p so.proxied.base) :
    VisitsAll p keys s addr ↔ ∀ so, s.object addr = some so →
      (∀ user, ((so.proxied.get user).getD ⟨0, 0, 0⟩).isEmpty = false →
        (so.proxied.base user).isSome) ∧
      ∀ user, (so.proxied.base user).isSome → so.proxied.dirty.lookup user ≠ some none := by
  constructor
  · intro h so hso
    obtain ⟨visits, s', hrun, honce, -⟩ := h .idle
    rw [forEachProxied_of_object hso] at hrun
    have hnil : ∀ user, (so.proxied.base user).isSome →
        so.proxied.dirty.lookup user ≠ some none := by
      intro user huser hd
      rw [visitEach_idle_panics (hknown so hso) (fun key hkey => (hkeys.2 so hso key).1 hkey)
        ((hkeys.2 so hso user).2 huser) ⟨so, hso, hd⟩] at hrun
      simp at hrun
    refine ⟨fun user huser => ?_, hnil⟩
    obtain ⟨_, _, hrun', hmap, -⟩ := visits_current .idle (hknown so hso)
      (fun key hkey => (hkeys.2 so hso key).1 hkey) ⟨so, hso, rfl, hnil⟩
    rw [hrun'] at hrun
    obtain ⟨rfl, -⟩ := Prod.mk.inj (Except.ok.inj hrun)
    have hcount := honce user (by rw [entry, hso]; exact huser)
    rw [hmap] at hcount
    exact (hkeys.2 so hso user).1 (List.count_pos_iff.1 (by omega))
  · intro h cb
    cases hso : s.object addr with
    | none =>
      refine ⟨[], s, by rw [forEachProxied, hso], fun user huser => ?_, by simp⟩
      rw [entry, hso] at huser
      exact absurd huser (by simp [AccountProxiedBalance.isEmpty])
    | some so =>
      obtain ⟨hstored, hnil⟩ := h so hso
      obtain ⟨visits, s', hrun, hmap, hcurrent⟩ := visits_current cb (hknown so hso)
        (fun key hkey => (hkeys.2 so hso key).1 hkey) ⟨so, hso, rfl, hnil⟩
      refine ⟨visits, s', by rw [forEachProxied_of_object hso, hrun], fun user huser => ?_, hcurrent⟩
      rw [hmap]
      rw [entry, hso] at huser
      exact List.count_eq_one_of_mem hkeys.1 ((hkeys.2 so hso user).2 (hstored user huser))

end JournaledDB

/-! ## A new delegation -/

namespace FirstDelegation

/-- The user `[2]` delegates 5 to the candidate `[1]`. -/
def delegated : JournaledDB :=
  DbAction.runAll (.new .empty) [.create [1],
    .edit [1] (.accountProxiedBalance [2] (some ⟨5, 0, 0⟩)), .edit [1] (.amount .proxiedBalance 5)]

theorem iterates : Iterates [] delegated [1] := by
  refine ⟨List.nodup_nil, fun so hso key => ?_⟩
  cases hso
  simp only [List.not_mem_nil, false_iff, Bool.not_eq_true]
  rfl

/-- The candidate `[1]` with the delegation in its trie. -/
def settled : JournaledDB :=
  .new ⟨fun a => if a = [1] then some ⟨.new, fun _ => none, fun _ => ∅,
    fun user => if user = [2] then some ⟨5, 0, 0⟩ else none, fun _ => none⟩ else none,
    fun _ => none, none⟩

theorem settled_proxied (so : StateObject) (hso : settled.object [1] = some so) :
    so.proxied = .ofBase fun user => if user = [2] then some ⟨5, 0, 0⟩ else none := by
  cases hso
  rfl

theorem settled_iterates : Iterates [[2]] settled [1] := by
  refine ⟨by simp, fun so hso key => ?_⟩
  rw [settled_proxied so hso]
  by_cases hkey : key = [2] <;> simp [EntryCache.ofBase, hkey]

/-- In the next block the delegator is visited, if it has an account. -/
theorem forEachProxied_visits_settled : VisitsAll ⟨∅, {[2]}⟩ [[2]] settled [1] := by
  refine (forEachProxied_visits_iff ⟨∅, {[2]}⟩ [[2]] settled [1] settled_iterates
    fun so hso key hkey => ?_).2 fun so hso => ⟨fun user huser => ?_, fun user _ => ?_⟩
  · rw [List.mem_singleton.1 ((settled_iterates.2 so hso key).2 hkey)]
    rfl
  · rw [settled_proxied so hso] at huser ⊢
    by_cases hkey : user = [2]
    · simp [EntryCache.ofBase, hkey]
    · simp [EntryCache.ofBase, EntryCache.get, EntryCache.committed, hkey,
        AccountProxiedBalance.isEmpty] at huser
  · rw [settled_proxied so hso]
    simp [EntryCache.ofBase]

/-- The first delegator of a candidate is not visited in the block of the delegation, whatever
preimages there are, and later not as long as the account trie does not know it. -/
theorem forEachProxied_misses :
    (Call.addByUser .proxied [1] [2] 5).exec (.new .empty) = .ok delegated ∧
      Iterates [] delegated [1] ∧ (∀ p, ¬ VisitsAll p [] delegated [1]) ∧
      Iterates [[2]] settled [1] ∧ ¬ VisitsAll ⟨∅, ∅⟩ [[2]] settled [1] := by
  refine ⟨by rw [Call.exec_eq_actions]; rfl, iterates, fun p h => ?_, settled_iterates, fun h => ?_⟩
  · obtain ⟨_, _, hrun, honce, -⟩ := h .idle
    obtain ⟨rfl, -⟩ := Prod.mk.inj (Except.ok.inj hrun)
    exact absurd (honce [2] (by decide +kernel)) (by decide)
  · -- the one visit is to the zero address
    obtain ⟨_, _, hrun, honce, -⟩ := h .idle
    obtain ⟨rfl, -⟩ := Prod.mk.inj (Except.ok.inj hrun)
    exact absurd (honce [2] (by decide +kernel)) (by decide)

end FirstDelegation

end NeatPoS
