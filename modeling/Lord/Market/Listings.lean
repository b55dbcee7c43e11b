import Lord.Market.NodeRuns

/-! What a node of the market answers behind any run: the status of a root, and the offers of a
namespace. -/

namespace Lord.Market

open Storage Ots Commit Payments Runs History

/-! ### Keys of offers -/

theorem prefixByte_inj {marketNamespace other : MarketNamespace}
    (h : marketNamespace.prefixByte = other.prefixByte) : marketNamespace = other := by
  cases marketNamespace <;> cases other <;> first | rfl | (exact absurd h (by decide))

theorem encodeOfferKey_inj {marketNamespace other : MarketNamespace} {offerId otherId : OfferId}
    (h : encodeOfferKey marketNamespace offerId = encodeOfferKey other otherId) :
    marketNamespace = other ∧ offerId = otherId := by
  obtain ⟨hbyte, hid⟩ := List.cons.inj h
  exact ⟨prefixByte_inj hbyte, Subtype.ext hid⟩

/-- The prefix of a namespace selects its keys. -/
theorem isPrefixOf_encodeOfferKey (marketNamespace other : MarketNamespace) (offerId : OfferId) :
    [marketNamespace.prefixByte].isPrefixOf (encodeOfferKey other offerId) = true ↔
      other = marketNamespace := by
  rw [List.isPrefixOf_iff_prefix, encodeOfferKey, List.cons_prefix_cons]
  constructor
  · rintro ⟨hbyte, -⟩
    exact (prefixByte_inj hbyte).symm
  · rintro rfl
    exact ⟨rfl, List.nil_prefix⟩

/-- Every offer lies under its own key. -/
def KeyedOffers (offers : Table ProviderOffer) : Prop :=
  ∀ key offer, offers[key]? = some offer →
    key = encodeOfferKey offer.marketNamespace offer.offerId

theorem mem_listOffersInNamespace {offers : Table ProviderOffer} (h : KeyedOffers offers)
    {marketNamespace : MarketNamespace} {offer : ProviderOffer} :
    offer ∈ listOffersInNamespace offers marketNamespace ↔
      offer.marketNamespace = marketNamespace ∧
        offers[encodeOfferKey offer.marketNamespace offer.offerId]? = some offer := by
  simp only [listOffersInNamespace, List.mem_map, List.mem_filter, Prod.exists,
    Std.ExtTreeMap.mem_toList_iff_getElem?_eq_some, exists_eq_right]
  constructor
  · rintro ⟨key, hget, hprefix⟩
    obtain rfl := h key offer hget
    exact ⟨(isPrefixOf_encodeOfferKey _ _ _).mp hprefix, hget⟩
  · rintro ⟨hnamespace, hget⟩
    exact ⟨_, hget, (isPrefixOf_encodeOfferKey _ _ _).mpr hnamespace⟩

/-- A listing names no id twice. -/
theorem nodup_listOffersInNamespace {offers : Table ProviderOffer} (h : KeyedOffers offers)
    (marketNamespace : MarketNamespace) :
    ((listOffersInNamespace offers marketNamespace).map ProviderOffer.offerId).Nodup := by
  have hnodup : offers.toList.Nodup := offers.distinct_keys_toList.imp fun hne heq =>
    hne (by rw [heq]; exact Std.ReflCmp.compare_self)
  rw [listOffersInNamespace, List.map_map]
  refine List.Nodup.map_on ?_ (hnodup.filter _)
  rintro ⟨key, offer⟩ hmem ⟨key', offer'⟩ hmem' hid
  obtain ⟨hmem, hprefix⟩ := List.mem_filter.mp hmem
  obtain ⟨hmem', hprefix'⟩ := List.mem_filter.mp hmem'
  rw [Std.ExtTreeMap.mem_toList_iff_getElem?_eq_some] at hmem hmem'
  obtain rfl := h key offer hmem
  obtain rfl := h key' offer' hmem'
  have hnamespace := (isPrefixOf_encodeOfferKey _ _ _).mp hprefix
  have hnamespace' := (isPrefixOf_encodeOfferKey _ _ _).mp hprefix'
  rw [show offer.offerId = offer'.offerId from hid, hnamespace, ← hnamespace'] at hmem ⊢
  rw [hmem] at hmem'
  cases hmem'
  rfl

section

variable [Carbonado] [Digests] [OtsCodec] [MicroPaymentJson] {start : Node} {calls : List NodeCall} {n : Node}

theorem Traced.keyedOffers (h : Traced start calls n) : KeyedOffers n.offers :=
  fun key offer hoffer => (h.offer key offer hoffer).1

/-- The status of a root is that of its contract, whose replication is the initial one. -/
theorem Traced.marketStatus (h : Traced start calls n) (baoRoot : Bytes32) :
    (∃ contract, n.getContract baoRoot = some contract ∧
      n.marketStatus baoRoot = .ok ⟨contract, baoRoot, 0, []⟩) ∨
    (n.getContract baoRoot = none ∧ n.marketStatus baoRoot =
      .error s!"no storage contract for bao root `{Hex.encode baoRoot.val}`") := by
  have hreplication := h.replication baoRoot
  unfold Node.marketStatus
  cases hcontract : n.getContract baoRoot with
  | none => exact .inr ⟨rfl, rfl⟩
  | some contract =>
    rw [hcontract, Option.isSome_some, if_pos rfl] at hreplication
    rw [hreplication]
    exact .inl ⟨contract, rfl, rfl⟩

/-- An offer stays under its key until another one is published under the same id. -/
theorem offers_of_publishes {offer : ProviderOffer} (h : Occurs (Publishes start offer) calls) :
    (run Node.exec start calls).offers[
      encodeOfferKey offer.marketNamespace offer.offerId]?.isSome = true := by
  induction calls using List.reverseRecOn with
  | nil => exact absurd h not_occurs_nil
  | append_singleton front call ih =>
    rw [run_append]
    rcases occurs_append_singleton.mp h with hfront | hlast
    · have hold := ih hfront
      generalize run Node.exec start front = n at hold
      have hstep := n.exec_step call
      generalize n.exec call = n' at hstep
      cases hstep with
      | offer hpublish =>
        obtain ⟨-, -, rfl⟩ := publishProviderOffer_ok hpublish
        dsimp only
        rw [Std.ExtTreeMap.getElem?_insert]
        split
        · rfl
        · exact hold
      | _ => exact hold
    · obtain ⟨settings, options, newOfferId, createdAt, offers, rfl, hpublish⟩ := hlast
      simp only [Node.exec, hpublish]
      obtain ⟨-, -, rfl⟩ := publishProviderOffer_ok hpublish
      rw [Std.ExtTreeMap.getElem?_insert_self]
      rfl

/-- What a node answers: a status for every root that a contract was requested for and for no other,
and in each namespace, under ids that differ, the offers that were published there. -/
structure ServesMarket (start : Node) (calls : List NodeCall) (n : Node) : Prop where
  status : ∀ baoRoot,
    (Requested start baoRoot calls ∧ ∃ contract, contract.baoRoot = baoRoot ∧
      Occurs (Requests start contract) calls ∧
      n.marketStatus baoRoot = .ok ⟨contract, baoRoot, 0, []⟩) ∨
    (¬Requested start baoRoot calls ∧ n.marketStatus baoRoot =
      .error s!"no storage contract for bao root `{Hex.encode baoRoot.val}`")
  listed : ∀ marketNamespace, ∀ offer ∈ listOffersInNamespace n.offers marketNamespace,
    offer.marketNamespace = marketNamespace ∧ offer.capacityGib ≠ 0 ∧
      ¬(offer.encryptedOnly = true ∧ offer.openToUnencrypted = true) ∧
      Occurs (Publishes start offer) calls
  distinct : ∀ marketNamespace,
    ((listOffersInNamespace n.offers marketNamespace).map ProviderOffer.offerId).Nodup
  published : ∀ offer, Occurs (Publishes start offer) calls →
    ∃ latest ∈ listOffersInNamespace n.offers offer.marketNamespace, latest.offerId = offer.offerId

/-- Behind every run of a node the market answers by what the run requested and published. -/
theorem market_served (dir : DataDir) (ledger : MicroPaymentLedger) (payments : List PaymentDetails)
    (calls : List NodeCall) : ServesMarket (Node.fresh dir ledger payments) calls
      (run Node.exec (Node.fresh dir ledger payments) calls) := by
  have htraced := traced_run dir ledger payments calls
  have hkeyed := htraced.keyedOffers
  refine ⟨fun baoRoot => ?_, fun marketNamespace offer hoffer => ?_,
    fun marketNamespace => nodup_listOffersInNamespace hkeyed marketNamespace, fun offer hoffer => ?_⟩
  · rcases htraced.marketStatus baoRoot with ⟨contract, hcontract, hstatus⟩ | ⟨hnone, hstatus⟩
    · obtain ⟨hroot, hrequest⟩ := htraced.contract baoRoot contract hcontract
      exact .inl ⟨⟨contract, hroot, hrequest⟩, contract, hroot, hrequest, hstatus⟩
    · refine .inr ⟨fun hrequested => ?_, hstatus⟩
      have hsome := getContract_of_requested hrequested
      rw [hnone] at hsome
      cases hsome
  · obtain ⟨hnamespace, hget⟩ := (mem_listOffersInNamespace hkeyed).mp hoffer
    obtain ⟨-, hpublish⟩ := htraced.offer _ offer hget
    obtain ⟨front, call, hprefix, settings, options, newOfferId, createdAt, offers, hcall, hok⟩ :=
      hpublish
    obtain ⟨hcapacity, hflags, -⟩ := publishProviderOffer_ok hok
    exact ⟨hnamespace, hcapacity, hflags, front, call, hprefix, settings, options, newOfferId,
      createdAt, offers, hcall, hok⟩
  · obtain ⟨latest, hlatest⟩ := Option.isSome_iff_exists.mp (offers_of_publishes hoffer)
    obtain ⟨hnamespace, hid⟩ := encodeOfferKey_inj (hkeyed _ latest hlatest)
    refine ⟨latest, (mem_listOffersInNamespace hkeyed).mpr ⟨hnamespace.symm, ?_⟩, hid.symm⟩
    rwa [← hnamespace, ← hid]

end

end Lord.Market
