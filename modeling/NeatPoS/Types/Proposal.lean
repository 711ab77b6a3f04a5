import NeatPoS.Types.Basic

/-!
# What a proposal's signature covers

`Proposal.WriteSignBytes` writes the canonical form of the proposal, and `CanonicalProposal` copies
into it the height, the round, the header of the parts and what the proposal says about its proof of
lock.  The canonical form also has a field for the hash of the block's header, but nothing is ever
written to it; and it has none for `ProposerPeerKey`, the peer to which every voter of the round
then sends its votes.

So whoever relays a proposal can replace both, and the signature still verifies:
`Proposal.sameContent_iff` says that nothing else can be replaced.
-/

set_option autoImplicit false

namespace NeatPoS

/-! ## An encoder that can be read back -/

/-- A string, as the numbers of its characters in unary. -/
def toyString (s : String) : Bytes := toyConcat (s.toList.map fun c => List.replicate c.toNat 0)

theorem toyString_injective : Function.Injective toyString := by
  intro s t h
  have hmap := toyConcat_injective h
  have hchar : Function.Injective fun c : Char => List.replicate c.toNat (0 : UInt8) := by
    intro c d hcd
    exact Char.toNat_inj.1 (by simpa using congrArg List.length hcd)
  exact String.toList_inj.1 (hchar.list_map hmap)

/-- An integer in unary, after its sign. -/
def toySigned (i : Int) : Bytes := (if i < 0 then 1 else 0) :: List.replicate i.natAbs 0

theorem toySigned_injective : Function.Injective toySigned := by
  intro i j h
  obtain ⟨hsign, habs⟩ := List.cons.inj h
  have habs' : i.natAbs = j.natAbs := by simpa using congrArg List.length habs
  split at hsign <;> split at hsign
  · omega
  · cases hsign
  · cases hsign
  · omega

/-- A canonical proposal, written so that it can be read back. -/
def CanonicalJSONOnceProposal.toyBytes (d : CanonicalJSONOnceProposal) : Bytes :=
  toyConcat [toyString d.chainID, toySigned d.blockPartsHeader.total, d.blockPartsHeader.hash,
    toySigned d.height, d.polBlockID.hash, toySigned d.polBlockID.partsHeader.total,
    d.polBlockID.partsHeader.hash, toySigned d.polRound, toySigned d.round]

theorem CanonicalJSONOnceProposal.toyBytes_injective :
    Function.Injective CanonicalJSONOnceProposal.toyBytes := by
  rintro ⟨c, ⟨t, h⟩, n, ⟨b, ⟨pt, ph⟩⟩, pr, r⟩ ⟨c', ⟨t', h'⟩, n', ⟨b', ⟨pt', ph'⟩⟩, pr', r'⟩ heq
  have hfields := toyConcat_injective heq
  simp only [List.cons.injEq, toyString_injective.eq_iff, toySigned_injective.eq_iff,
    Int.natCast_inj, and_true] at hfields
  obtain ⟨rfl, rfl, rfl, rfl, rfl, rfl, rfl, rfl, rfl⟩ := hfields
  rfl

/-! ## Two proposals with one signature -/

/-- The proposals agree in every field but the signature. -/
def Proposal.SameContent (p q : Proposal) : Prop := { p with signature := q.signature } = q

/-- **What a proposal's signature covers.**  Two proposals that are signed by the same bytes are the
same proposal exactly when they name the same header hash and the same peer to send votes to: the
canonical document has a field for the former that is never filled in, and none for the latter. -/
theorem Proposal.sameContent_iff (lib : Neatlib) (chainID : String) {p q : Proposal}
    (hinj : Function.Injective lib.proposalSignBytes)
    (hsign : p.signBytes lib chainID = q.signBytes lib chainID) :
    p.SameContent q ↔ p.hash = q.hash ∧ p.proposerPeerKey = q.proposerPeerKey := by
  have hdoc := hinj hsign
  simp only [CanonicalJSONOnceProposal.mk.injEq, true_and] at hdoc
  obtain ⟨hparts, hheight, hpolBlock, hpolRound, hround⟩ := hdoc
  constructor
  · intro h
    rw [← h]
    exact ⟨rfl, rfl⟩
  · rintro ⟨hhash, hkey⟩
    obtain ⟨_, _⟩ := p
    obtain ⟨_, _⟩ := q
    simp only at hparts hheight hpolBlock hpolRound hround hhash hkey
    subst hparts hheight hpolBlock hpolRound hround hhash hkey
    rfl

/-- A library whose encoding of proposals can be read back. -/
def Neatlib.readable : Neatlib :=
  { Neatlib.toy (fun _ => []) (fun _ => none) with
    proposalSignBytes := CanonicalJSONOnceProposal.toyBytes }

/-- The proposer's own proposal. -/
def Proposal.honest : Proposal := ⟨5, 0, [7], ⟨1, [8]⟩, -1, .zero, "proposer", [1]⟩

/-- The same proposal after somebody on the way has changed what is not signed. -/
def Proposal.redirected : Proposal :=
  { Proposal.honest with hash := [9], proposerPeerKey := "nobody" }

theorem Proposal.sameContent_iff_honest :
    Proposal.honest.SameContent { Proposal.honest with signature := [2] } ↔
      Proposal.honest.hash = [7] ∧ Proposal.honest.proposerPeerKey = "proposer" :=
  Proposal.sameContent_iff Neatlib.readable "neatio" CanonicalJSONOnceProposal.toyBytes_injective rfl

/-- **A proposal can be redirected**: the signature is for the same bytes, the header hash and the
peer that collects the votes are not the same. -/
theorem Proposal.signBytes_redirected :
    Function.Injective Neatlib.readable.proposalSignBytes ∧
      Proposal.honest.signBytes Neatlib.readable "neatio" =
        Proposal.redirected.signBytes Neatlib.readable "neatio" ∧
      Proposal.honest.hash ≠ Proposal.redirected.hash ∧
      Proposal.honest.proposerPeerKey ≠ Proposal.redirected.proposerPeerKey :=
  ⟨CanonicalJSONOnceProposal.toyBytes_injective, rfl, by decide, by decide⟩

end NeatPoS
