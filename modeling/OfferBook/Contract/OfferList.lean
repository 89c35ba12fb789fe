import OfferBook.Contract.Layout
import OfferBook.Market

/-!
# The offer list of a market

The reader contract answers one question: the offers of a market, from a given one on and at most
so many. The answer has three columns, identifiers, offers and their execution details, and a hint
which offer would come next. This module holds question and answer as values and as data. The
columns are kept apart because nothing in the data makes them agree in length; that is for the
book to check.

Main result:

* `OfferList.decode?_encode`: an answer is read back from its data, whatever follows it.
-/

namespace OfferBook.Contract

/-- The selector of the offer list question. -/
def offerListSelector : Bytes := [0x79, 0xbf, 0xb7, 0xe1]

/-- The question: which market, from which offer on, and how many offers at most. -/
structure OfferListQuery where
  outbound : Address
  inbound : Address
  spacing : Word
  fromId : Word
  maxOffers : Word
  deriving DecidableEq

/-- An offer as the answer lists it. Zero for a neighbour means there is none. -/
structure ListedOffer where
  prev : Word
  next : Word
  tick : Word
  gives : Word
  deriving DecidableEq

/-- The execution details of an offer as the answer lists them. -/
structure ListedDetail where
  maker : Address
  gasreq : Word
  kiloGasbase : Word
  gasprice : Word
  deriving DecidableEq

/-- The answer. -/
structure OfferList where
  nextOffer : Word
  ids : List Word
  offers : List ListedOffer
  details : List ListedDetail
  deriving DecidableEq

namespace OfferListQuery

/-- The question about a market from its best offer on. -/
def ofMarket (m : Market) (maxOffers : UInt64) : OfferListQuery :=
  ⟨m.outbound, m.inbound, Word.ofUInt64 m.spacing, 0, Word.ofUInt64 maxOffers⟩

/-- The question as call data. -/
def encode (q : OfferListQuery) : Bytes :=
  offerListSelector ++
    [Word.ofAddress q.outbound, Word.ofAddress q.inbound, q.spacing, q.fromId,
      q.maxOffers].flatMap Word.bytes

/-- Reads a question off call data; bytes after it do not matter. -/
def decode? (data : Bytes) : Option OfferListQuery :=
  if data.take 4 = offerListSelector then
    match takeWords 5 (data.drop 4) with
    | some ([outbound, inbound, spacing, fromId, maxOffers], _) =>
      some ⟨outbound.address, inbound.address, spacing, fromId, maxOffers⟩
    | _ => none
  else none

theorem decode?_encode (q : OfferListQuery) (rest : Bytes) :
    decode? (q.encode ++ rest) = some q := by
  have h := takeWords_append
    [Word.ofAddress q.outbound, Word.ofAddress q.inbound, q.spacing, q.fromId, q.maxOffers] rest
  have hs : offerListSelector.length = 4 := rfl
  have hd : (q.encode ++ rest).drop 4 =
      [Word.ofAddress q.outbound, Word.ofAddress q.inbound, q.spacing, q.fromId,
        q.maxOffers].flatMap Word.bytes ++ rest := by
    rw [encode, List.append_assoc, ← hs, List.drop_left]
  have ht : (q.encode ++ rest).take 4 = offerListSelector := by
    rw [encode, List.append_assoc, ← hs, List.take_left]
  rw [decode?, if_pos ht, hd]
  simp only [List.length_cons, List.length_nil] at h
  rw [h]
  simp [Word.address_ofAddress]

end OfferListQuery

namespace ListedOffer

/-- The words of a listed offer. -/
def words (o : ListedOffer) : List Word := [o.prev, o.next, o.tick, o.gives]

/-- A listed offer as data. -/
def bytes (o : ListedOffer) : Bytes := o.words.flatMap Word.bytes

theorem length_bytes (o : ListedOffer) : o.bytes.length = 128 := by simp [bytes, words]

/-- Reads a listed offer off the front of the data. -/
def take (data : Bytes) : Option (ListedOffer × Bytes) :=
  match takeWords 4 data with
  | some ([prev, next, tick, gives], rest) => some (⟨prev, next, tick, gives⟩, rest)
  | _ => none

theorem take_bytes_append (o : ListedOffer) (rest : Bytes) :
    take (o.bytes ++ rest) = some (o, rest) := by
  have h := takeWords_append o.words rest
  simp only [words, List.length_cons, List.length_nil] at h
  simp only [take, bytes, words, h]

end ListedOffer

namespace ListedDetail

/-- The words of listed details. -/
def words (d : ListedDetail) : List Word :=
  [Word.ofAddress d.maker, d.gasreq, d.kiloGasbase, d.gasprice]

/-- Listed details as data. -/
def bytes (d : ListedDetail) : Bytes := d.words.flatMap Word.bytes

theorem length_bytes (d : ListedDetail) : d.bytes.length = 128 := by simp [bytes, words]

/-- Reads listed details off the front of the data. -/
def take (data : Bytes) : Option (ListedDetail × Bytes) :=
  match takeWords 4 data with
  | some ([maker, gasreq, kiloGasbase, gasprice], rest) =>
    some (⟨maker.address, gasreq, kiloGasbase, gasprice⟩, rest)
  | _ => none

theorem take_bytes_append (d : ListedDetail) (rest : Bytes) :
    take (d.bytes ++ rest) = some (d, rest) := by
  have h := takeWords_append d.words rest
  simp only [words, List.length_cons, List.length_nil] at h
  simp only [take, bytes, words, h, Word.address_ofAddress]

end ListedDetail

namespace OfferList

/-- An array of elements of fixed size in a tail. -/
def column {α : Type} (put : α → Bytes) (xs : List α) : Bytes :=
  (natWord xs.length).bytes ++ xs.flatMap put

/-- The columns of the answer as they stand in the tail. -/
def columns (l : OfferList) : List Bytes :=
  [column Word.bytes l.ids, column ListedOffer.bytes l.offers,
    column ListedDetail.bytes l.details]

/-- The answer as return data: the hint, the offsets of the columns, the columns. -/
def encode (l : OfferList) : Bytes :=
  l.nextOffer.bytes ++ (offsets 128 l.columns).flatMap Word.bytes ++ l.columns.flatten

/-- Reads an answer off return data. -/
def decode? (data : Bytes) : Option OfferList :=
  match takeWords 4 data with
  | some ([nextOffer, ids, offers, details], _) =>
    (arrayAt? takeWord data ids).bind fun ids =>
      (arrayAt? ListedOffer.take data offers).bind fun offers =>
        (arrayAt? ListedDetail.take data details).map fun details =>
          ⟨nextOffer, ids, offers, details⟩
  | _ => none

theorem length_column {α : Type} {put : α → Bytes} {k : Nat}
    (h : ∀ x, (put x).length = k) (xs : List α) :
    (column put xs).length = 32 + k * xs.length := by
  rw [column, List.length_append, Word.length_bytes, length_flatMap_of_size h]

theorem length_encode (l : OfferList) :
    l.encode.length =
      224 + 32 * l.ids.length + 128 * l.offers.length + 128 * l.details.length := by
  simp only [encode, columns, offsets, List.flatMap_cons, List.flatMap_nil, List.flatten_cons,
    List.flatten_nil, List.length_append, List.length_nil, Word.length_bytes,
    length_column Word.length_bytes, length_column ListedOffer.length_bytes,
    length_column ListedDetail.length_bytes]
  omega

/-- A column is read back at its offset, whatever follows it. -/
private theorem arrayAt?_column {α : Type} {take : Bytes → Option (α × Bytes)} {put : α → Bytes}
    (h : ∀ x rest, take (put x ++ rest) = some (x, rest)) {front : Bytes} {xs : List α}
    (hfront : front.length ≤ Word.max64) (hxs : xs.length ≤ Word.max64) (rest : Bytes) :
    arrayAt? take (front ++ (column put xs ++ rest)) (natWord front.length) = some xs := by
  rw [arrayAt?, at?_append hfront, Option.bind_some, column, List.append_assoc,
    takeWord_bytes_append, Option.bind_some]
  simp only [index?_natWord hxs, Option.bind_some]
  exact takeMany_append h xs rest

/-- The answer is read back from its data, whatever follows it, as long as the data is no longer
than 64 bits can address. -/
theorem decode?_encode (l : OfferList) (hfits : l.encode.length ≤ Word.max64) (rest : Bytes) :
    decode? (l.encode ++ rest) = some l := by
  rw [length_encode] at hfits
  let ids := column Word.bytes l.ids
  let offers := column ListedOffer.bytes l.offers
  let details := column ListedDetail.bytes l.details
  have hidsLength : ids.length = 32 + 32 * l.ids.length := length_column Word.length_bytes _
  have hoffersLength : offers.length = 32 + 128 * l.offers.length :=
    length_column ListedOffer.length_bytes _
  let headWords := [l.nextOffer, natWord 128, natWord (128 + ids.length),
    natWord (128 + ids.length + offers.length)]
  let head : Bytes := headWords.flatMap Word.bytes
  have hhead : head.length = 128 := by simp [head, headWords]
  -- Every column has the head and the columns in front of it for its offset.
  have hdata : l.encode ++ rest = head ++ (ids ++ (offers ++ (details ++ rest))) := by
    simp [encode, columns, offsets, head, headWords, ids, offers, details]
  have hids : arrayAt? takeWord (l.encode ++ rest) (natWord 128) = some l.ids := by
    rw [hdata, ← hhead]
    exact arrayAt?_column takeWord_bytes_append (by rw [hhead]; decide) (by omega) _
  have hoffers : arrayAt? ListedOffer.take (l.encode ++ rest) (natWord (128 + ids.length)) =
      some l.offers := by
    have hfront : (head ++ ids).length = 128 + ids.length := by rw [List.length_append, hhead]
    rw [hdata, ← List.append_assoc, ← hfront]
    exact arrayAt?_column ListedOffer.take_bytes_append (by omega) (by omega) _
  have hdetails : arrayAt? ListedDetail.take (l.encode ++ rest)
      (natWord (128 + ids.length + offers.length)) = some l.details := by
    have hfront : (head ++ ids ++ offers).length = 128 + ids.length + offers.length := by
      rw [List.length_append, List.length_append, hhead]
    rw [hdata, ← List.append_assoc, ← List.append_assoc, ← hfront]
    exact arrayAt?_column ListedDetail.take_bytes_append (by omega) (by omega) _
  have htake : takeWords 4 (l.encode ++ rest) =
      some (headWords, ids ++ (offers ++ (details ++ rest))) := by
    rw [hdata]
    exact takeWords_append headWords _
  simp only [decode?, htake, headWords, hids, hoffers, hdetails, Option.bind_some, Option.map_some]

end OfferList

end OfferBook.Contract
