import OfferBook.Proofs.Run
import OfferBook.Proofs.Sorting

/-!
# What is fetched from a reader in memory

A market's book is fetched in four steps: the question about the market is laid out as call data,
the reader reads it and lays its answer out as return data, the fetcher reads that, and the rows
it finds are put in order. Nothing may be lost on the way: a reader that holds a market serves its
first offers, as many as a page has, and this is what the book holds.

What the book should be is said without the layout. `HeldOffer.entries` are the entries of a page,
each offer between its neighbours in the order of serving, and `Entry.StablySorted` says that they
are put in order of their ticks with equal ticks left as they were.

## Main results

* `stablySorted_sort`: the sorting of rows is stable.
* `ofOfferList_page`: the book of a served page holds its entries, sorted.
* `answer_ofMarket`: how a reader answers the question about a market.
* `tryFetch_page`: what is fetched is the served page, and no other market has a say in it.
-/

namespace OfferBook

/-! ## Stable sorting -/

namespace Entry

/-- The entries are the listed ones in order of their ticks, and at every tick they stand as they
were listed. -/
structure StablySorted (listed entries : List Entry) : Prop where
  perm : entries.Perm listed
  ordered : entries.Pairwise fun x y => x.tick ≤ y.tick
  ties : ∀ t, (entries.filter fun e => e.tick = t) = listed.filter fun e => e.tick = t

theorem stablySorted_sort (es : List Entry) : StablySorted es (sort es) where
  perm := perm_sort es
  ordered := pairwise_sort es
  ties := by
    intro t
    unfold sort
    split
    · rfl
    · refine filter_mergeSort_of_tied le_trans le_total (fun a b ha hb => ?_) es
      simp only [decide_eq_true_eq] at ha hb
      simp [le, ha, hb, Tick.le_def]

end Entry

/-! ## Served pages -/

namespace HeldOffer

/-- The identifier by which an offer is known to its neighbours. Zero is none. -/
def id? (o : HeldOffer) : Option Word := if o.id = 0 then none else some (Word.ofUInt64 o.id)

/-- The entry of the offer at a place of a page: the offer on its own terms, between the offers
before and behind it. -/
def entryAt (page : List HeldOffer) (i : Nat) (o : HeldOffer) : Entry where
  id := Word.ofUInt64 o.id
  offer :=
    { tick := o.tick
      gives := Word.ofUInt64 o.gives
      prev := if i = 0 then none else page[i - 1]?.bind id?
      next := page[i + 1]?.bind id? }
  detail := ⟨o.maker, o.gasreq, o.kiloGasbase, o.gasprice⟩

/-- The entries of a page in the order of serving. -/
def entries (page : List HeldOffer) : List Entry := page.mapIdx (entryAt page)

private theorem neighbour_ofUInt64 (n : Option HeldOffer) :
    Offer.neighbour ((n.map fun o => Word.ofUInt64 o.id).getD 0) = n.bind id? := by
  cases n with
  | none => rfl
  | some o =>
      have hzero : Word.ofUInt64 o.id = 0 ↔ o.id = 0 := by
        refine ⟨fun h => ?_, fun h => by rw [h]; rfl⟩
        rw [← Word.clamp64_ofUInt64 o.id, h]
        rfl
      simp only [Offer.neighbour, id?, hzero, Option.map_some, Option.getD_some, Option.bind_some]

/-- A row of the answer makes the entry of its offer. -/
private theorem ofListed_listed (o : HeldOffer) (prev next : Option HeldOffer) :
    Entry.ofListed (Word.ofUInt64 o.id) (o.listed prev next) o.listedDetail =
      .ok ⟨Word.ofUInt64 o.id, ⟨o.tick, Word.ofUInt64 o.gives, prev.bind id?, next.bind id?⟩,
        ⟨o.maker, o.gasreq, o.kiloGasbase, o.gasprice⟩⟩ := by
  simp only [Entry.ofListed, Offer.ofListed, listed, listedDetail, OfferDetail.ofListed,
    Tick.toInt_word, Tick.ofInt?_val, neighbour_ofUInt64, Word.clamp64_ofUInt64, Except.map]

/-- The rows of what is left of a page are the entries at their places of the whole page. -/
private theorem rows_listPage (front rest : List HeldOffer) :
    Book.rows (rest.map fun o => Word.ofUInt64 o.id) (listPage front.getLast? rest)
        (rest.map listedDetail) =
      .ok (rest.mapIdx fun i o => entryAt (front ++ rest) (front.length + i) o) := by
  induction rest generalizing front with
  | nil => rfl
  | cons o rest ih =>
      have hprev : front.getLast?.bind id? =
          if front.length = 0 then none else (front ++ o :: rest)[front.length - 1]?.bind id? := by
        cases front with
        | nil => rfl
        | cons first front =>
            rw [if_neg (by simp), List.getElem?_append_left (by simp), List.getLast?_eq_getElem?]
      have hnext : rest.head? = (front ++ o :: rest)[front.length + 1]? := by
        rw [List.getElem?_append_right (by omega), Nat.add_sub_cancel_left,
          List.getElem?_cons_succ, List.head?_eq_getElem?]
      have hrest := ih (front ++ [o])
      rw [List.getLast?_concat, List.append_assoc, List.singleton_append, List.length_append,
        List.length_singleton] at hrest
      rw [List.map_cons, List.map_cons, listPage, Book.rows, ofListed_listed, hprev, hnext, hrest,
        List.mapIdx_cons]
      simp only [Except.bind, Except.map, Except.ok.injEq, List.cons.injEq]
      exact ⟨rfl, by simp only [Nat.add_assoc, Nat.add_comm 1]⟩

end HeldOffer

namespace HeldMarket

variable {held : HeldMarket} {maxOffers : Word}

private theorem length_listPage (prev : Option HeldOffer) (offers : List HeldOffer) :
    (HeldOffer.listPage prev offers).length = offers.length := by
  induction offers generalizing prev with
  | nil => rfl
  | cons o rest ih => rw [HeldOffer.listPage, List.length_cons, List.length_cons, ih]

/-- The book of a served page holds its entries in order of their ticks. -/
theorem ofOfferList_page (held : HeldMarket) (maxOffers : Word) (block : Nat) :
    Book.ofOfferList block (held.page maxOffers) =
      .ok ⟨block, Word.ofUInt64 held.nextOffer,
        Entry.sort (HeldOffer.entries (held.offers.take maxOffers.toNat))⟩ := by
  have hrows := HeldOffer.rows_listPage [] (held.offers.take maxOffers.toNat)
  simp only [List.getLast?_nil, List.nil_append, List.length_nil, Nat.zero_add] at hrows
  rw [Book.ofOfferList, if_pos (by simp [page, length_listPage])]
  simp only [page, hrows, Except.map]
  rfl

end HeldMarket

/-! ## Readers in memory -/

namespace InMemoryReader

variable {r : InMemoryReader} {m : Market}

/-- What a reader holds for a market. -/
def setting? (r : InMemoryReader) (m : Market) : Option HeldMarket :=
  r.markets.find? fun held => held.market = m

/-- What was last put in for a market is held, and what is held for others stays. -/
theorem setting?_hold (r : InMemoryReader) (held : HeldMarket) (m : Market) :
    (r.hold held).setting? m = if held.market = m then some held else r.setting? m := by
  unfold setting? hold
  by_cases hm : held.market = m
  · rw [if_pos hm, List.find?_cons_of_pos (by simpa using hm)]
  · rw [if_neg hm, List.find?_cons_of_neg (by simpa using hm), List.find?_filter]
    congr 1
    funext other
    by_cases hother : other.market = m
    · simp [hother, Ne.symm hm]
    · simp [hother]

/-- The question about a market is answered with what is held for it: tokens and spacing tell a
market. -/
theorem held?_ofMarket (r : InMemoryReader) (m : Market) (pageSize : UInt64) :
    r.held? (.ofMarket m pageSize) = r.setting? m := by
  unfold held? setting?
  congr 1
  funext other
  obtain ⟨⟨outbound, inbound, spacing⟩, nextOffer, offers⟩ := other
  obtain ⟨outbound', inbound', spacing'⟩ := m
  have hspacing : Word.ofUInt64 spacing = Word.ofUInt64 spacing' ↔ spacing = spacing' := by
    refine ⟨fun h => ?_, congrArg Word.ofUInt64⟩
    rw [← Word.clamp64_ofUInt64 spacing, h, Word.clamp64_ofUInt64]
  simp only [Contract.OfferListQuery.ofMarket, Market.mk.injEq, hspacing]

/-- How a reader answers the question about a market, wherever it is sent. -/
theorem answer_ofMarket (r : InMemoryReader) (target : Address) (m : Market) (pageSize : UInt64) :
    r.answer ⟨target, (Contract.OfferListQuery.ofMarket m pageSize).encode⟩ =
      match r.setting? m with
      | none => ⟨false, []⟩
      | some held =>
        ⟨true, if r.corrupt then [0xde, 0xad]
          else (held.page (Word.ofUInt64 pageSize)).encode⟩ := by
  have hquery := Contract.OfferListQuery.decode?_encode (.ofMarket m pageSize) []
  rw [List.append_nil] at hquery
  simp only [answer, hquery, Option.bind_some, held?_ofMarket]
  cases r.setting? m with
  | none => rfl
  | some held => cases r.corrupt <;> rfl

end InMemoryReader

/-! ## Fetching -/

namespace Fetcher

variable {f : Fetcher} {r : InMemoryReader} {held : HeldMarket} {block : Nat}

/-- The answer to a fetcher's batch, from a reader within reach. -/
private theorem batch_request (f : Fetcher) (hreach : r.failing = false) (block : Nat) :
    r.reader.batch f.request block =
      .ok [r.answer ⟨f.reader, (Contract.OfferListQuery.ofMarket f.market f.pageSize).encode⟩] := by
  simp [InMemoryReader.reader, hreach, request]

/-- What is fetched depends on what is held for the market alone. -/
theorem tryFetch_congr {other : InMemoryReader} (hreach : r.failing = false)
    (hsound : r.corrupt = false) (hreach' : other.failing = false) (hsound' : other.corrupt = false)
    (hsame : other.setting? f.market = r.setting? f.market) :
    f.tryFetch other.reader block = f.tryFetch r.reader block := by
  rw [tryFetch, tryFetch, batch_request f hreach, batch_request f hreach',
    InMemoryReader.answer_ofMarket, InMemoryReader.answer_ofMarket, hsame, hsound, hsound']

/-- The book that is fetched from a reader holding the market. -/
theorem tryFetch_of_setting (hreach : r.failing = false) (hsound : r.corrupt = false)
    (hheld : r.setting? f.market = some held)
    (hfits : (held.page (Word.ofUInt64 f.pageSize)).encode.length ≤ Word.max64) :
    (f.tryFetch r.reader block).value = .ok ⟨block, Word.ofUInt64 held.nextOffer,
      Entry.sort (HeldOffer.entries (held.offers.take f.pageSize.toNat))⟩ := by
  have hdata := Contract.OfferList.decode?_encode _ hfits []
  rw [List.append_nil] at hdata
  have hbook := HeldMarket.ofOfferList_page held (Word.ofUInt64 f.pageSize) block
  rw [Word.toNat_ofUInt64] at hbook
  refine tryFetch_eq_ok_iff.mpr ⟨_, _, [], batch_request f hreach block, ?_, ?_, hbook⟩
  · rw [InMemoryReader.answer_ofMarket, hheld]
  · rw [InMemoryReader.answer_ofMarket, hheld, hsound]
    exact hdata

/-- **The fetched book is the served one.** A reader within reach that holds a market, beside
whatever other markets, is asked for a page of it. What is fetched is a book of the block that was
asked for, with the hint that is held, and with the first offers that are held, as many as the
page takes: each on its own terms, between its neighbours in the order of serving, and all in
order of their ticks, equal ticks as they were served. Readers that hold the same for the market
give the same answer. (The data of a page is as long as 64 bits can address; no memory holds
more.) -/
theorem tryFetch_page (hreach : r.failing = false) (hsound : r.corrupt = false) {m : Market}
    {nextOffer : UInt64} {offers : List HeldOffer}
    (hheld : r.setting? m = some ⟨m, nextOffer, offers⟩) (contract : Address) (pageSize : UInt64)
    (block : Nat)
    (hfits : ((HeldMarket.mk m nextOffer offers).page (Word.ofUInt64 pageSize)).encode.length ≤
      Word.max64) :
    let f : Fetcher := ⟨contract, m, pageSize⟩
    (∃ b, (f.tryFetch r.reader block).value = .ok b ∧ b.block = block ∧
        b.nextOffer = Word.ofUInt64 nextOffer ∧
        Entry.StablySorted (HeldOffer.entries (offers.take pageSize.toNat)) b.entries) ∧
      ∀ other : InMemoryReader, other.failing = false → other.corrupt = false →
        other.setting? m = r.setting? m →
        f.tryFetch other.reader block = f.tryFetch r.reader block := by
  intro f
  refine ⟨⟨_, tryFetch_of_setting (f := f) hreach hsound hheld hfits, rfl, rfl,
    Entry.stablySorted_sort _⟩, fun other hreach' hsound' hsame => ?_⟩
  exact tryFetch_congr hreach hsound hreach' hsound' hsame

/-- Of four offers three are asked for. The second one has no identifier, and the third stands at
the tick of the first; the market's other side is held as well. -/
theorem tryFetch_page_tied_ticks :
    let m : Market := ⟨0xaa, 0xbb, 1⟩
    let offers : List HeldOffer :=
      [.usual 9 ⟨3, by decide, by decide⟩ 5, .usual 0 ⟨-1, by decide, by decide⟩ 4,
        .usual 4 ⟨3, by decide, by decide⟩ 7, .usual 6 ⟨-5, by decide, by decide⟩ 2]
    let r := (InMemoryReader.empty.hold ⟨m, 7, offers⟩).hold ⟨⟨0xbb, 0xaa, 1⟩, 2, offers⟩
    let served : List Entry :=
      [⟨9, ⟨⟨3, by decide, by decide⟩, 5, none, none⟩, ⟨0xbb, 150000, 300, 3⟩⟩,
        ⟨0, ⟨⟨-1, by decide, by decide⟩, 4, some 9, some 4⟩, ⟨0xbb, 150000, 300, 3⟩⟩,
        ⟨4, ⟨⟨3, by decide, by decide⟩, 7, none, none⟩, ⟨0xbb, 150000, 300, 3⟩⟩]
    ∃ b, ((⟨0xcc, m, 3⟩ : Fetcher).tryFetch r.reader 150).value = .ok b ∧
      b.block = 150 ∧ b.nextOffer = 7 ∧ b.ids = [0, 9, 4] ∧
        Entry.StablySorted served b.entries := by
  intro m offers r served
  have hheld : r.setting? m = some ⟨m, 7, offers⟩ := by
    rw [InMemoryReader.setting?_hold, if_neg (by decide), InMemoryReader.setting?_hold, if_pos rfl]
  have hfits : ((HeldMarket.mk m 7 offers).page (Word.ofUInt64 3)).encode.length ≤ Word.max64 := by
    rw [Contract.OfferList.length_encode]
    decide +kernel
  have hserved : HeldOffer.entries (offers.take 3) = served := by decide +kernel
  have hids : (Entry.sort served).map Entry.id = [0, 9, 4] := by
    simp [served, Entry.sort, Entry.inOrder, Entry.le, Entry.tick, Tick.le_def, List.mergeSort,
      List.MergeSort.Internal.splitInTwo]
  obtain ⟨⟨b, hb, hblock, hnext, hsorted⟩, -⟩ :=
    tryFetch_page (r := r) rfl rfl hheld 0xcc 3 150 hfits
  have hbook := @tryFetch_of_setting ⟨0xcc, m, 3⟩ r ⟨m, 7, offers⟩ 150 rfl rfl hheld hfits
  obtain rfl := Except.ok.inj (hb.symm.trans hbook)
  have hsortedIds := (congrArg (fun es => (Entry.sort es).map Entry.id) hserved).trans hids
  exact ⟨_, hb, hblock, hnext, hsortedIds, hserved ▸ hsorted⟩

end Fetcher

end OfferBook
