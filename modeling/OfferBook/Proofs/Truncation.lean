import OfferBook.Fetcher
import OfferBook.Reader.InMemory

/-!
# Truncated responses

Return data may arrive cut short, or with something behind it. What is read off data is read off
it just the same when more bytes follow: offsets count from the front, and so many bytes are taken
behind them (`OfferList.decode?_extend`). And of an encoding every byte is needed. Its columns
stand one after another behind the head, and the last one reaches to the end. A strict prefix that
is read at all is read as the encoded list, since that is what it becomes with the missing bytes
behind it; but then its head names the place of the last column, and the column has no room
(`OfferList.decode?_of_prefix`).

A response that was cut is therefore never taken for a smaller book, nor a longer one for another.

## Main results

* `OfferList.decode?_eq_some_iff`: what it takes to be read as an offer list.
* `OfferList.decode?_extend`: what was read stays read when more bytes follow.
* `OfferList.decode?_of_prefix`: no strict prefix of an encoding is read as anything.
* `Fetcher.tryFetch_whole_or_undecodable`: what that means for fetching.
-/

namespace OfferBook.Contract

/-! ## Reading elements -/

section Elements

variable {α : Type} {take : Bytes → Option (α × Bytes)} {k n : Nat} {data tail rest : Bytes}
  {offset : Word} {xs : List α}

/-- An element reader takes so many bytes off the front, and what it reads does not depend on what
follows them. -/
structure FixedSize (take : Bytes → Option (α × Bytes)) (k : Nat) : Prop where
  length_eq {data tail : Bytes} {x : α} :
    take data = some (x, tail) → data.length = k + tail.length
  extend {data tail : Bytes} {x : α} :
    take data = some (x, tail) → ∀ rest, take (data ++ rest) = some (x, tail ++ rest)

theorem takeWord_fixedSize : FixedSize takeWord 32 where
  length_eq {data tail w} h := by
    rw [takeWord_eq] at h
    split at h
    · obtain ⟨-, rfl⟩ := Prod.mk.inj (Option.some.inj h)
      rw [List.length_drop]
      omega
    · cases h
  extend {data tail w} h rest := by
    rw [takeWord_eq] at h ⊢
    split at h
    next hlength =>
      obtain ⟨rfl, rfl⟩ := Prod.mk.inj (Option.some.inj h)
      rw [if_pos (by rw [List.length_append]; omega), List.drop_append_of_le_length hlength,
        wordAt, wordAt, Nat.mul_zero, List.drop_zero, List.drop_zero,
        List.take_append_of_le_length hlength]
    next => cases h

theorem takeWords_fixedSize (n : Nat) : FixedSize (takeWords n) (32 * n) := by
  induction n with
  | zero =>
      refine ⟨fun {data tail ws} h => ?_, fun {data tail ws} h rest => ?_⟩
      · obtain ⟨-, rfl⟩ := Prod.mk.inj (Option.some.inj h)
        omega
      · obtain ⟨rfl, rfl⟩ := Prod.mk.inj (Option.some.inj h)
        rfl
  | succ n ih =>
      refine ⟨fun {data tail ws} h => ?_, fun {data tail ws} h rest => ?_⟩
      all_goals
        simp only [takeWords, Option.bind_eq_some_iff, Option.map_eq_some_iff,
          Prod.mk.injEq, Prod.exists] at h
        obtain ⟨w, data', hword, ws, tail, hwords, rfl, rfl⟩ := h
      · have := takeWord_fixedSize.length_eq hword
        have := ih.length_eq hwords
        omega
      · simp [takeWords, takeWord_fixedSize.extend hword, ih.extend hwords]

/-- What is made of the words at the front alone is as large as they are. -/
theorem FixedSize.of_words
    (h : ∀ {data tail x}, take data = some (x, tail) → ∃ ws, takeWords n data = some (ws, tail) ∧
      ∀ {data' tail'}, takeWords n data' = some (ws, tail') → take data' = some (x, tail')) :
    FixedSize take (32 * n) where
  length_eq htake := by
    obtain ⟨ws, hws, -⟩ := h htake
    exact (takeWords_fixedSize n).length_eq hws
  extend htake rest := by
    obtain ⟨ws, hws, hback⟩ := h htake
    exact hback ((takeWords_fixedSize n).extend hws rest)

theorem ListedOffer.fixedSize : FixedSize ListedOffer.take 128 := by
  refine FixedSize.of_words (n := 4) fun {data tail o} h => ?_
  unfold ListedOffer.take at h
  split at h
  next prev next tick gives rest hwords =>
    obtain ⟨rfl, rfl⟩ := Prod.mk.inj (Option.some.inj h)
    exact ⟨_, hwords, fun h' => by rw [ListedOffer.take, h']⟩
  next => cases h

theorem ListedDetail.fixedSize : FixedSize ListedDetail.take 128 := by
  refine FixedSize.of_words (n := 4) fun {data tail d} h => ?_
  unfold ListedDetail.take at h
  split at h
  next maker gasreq kiloGasbase gasprice rest hwords =>
    obtain ⟨rfl, rfl⟩ := Prod.mk.inj (Option.some.inj h)
    exact ⟨_, hwords, fun h' => by rw [ListedDetail.take, h']⟩
  next => cases h

/-! ## Reading arrays -/

/-- So many elements are taken, each of them being there. -/
theorem takeMany_fits (hsize : FixedSize take k) (h : takeMany take n data = some xs) :
    xs.length = n ∧ k * n ≤ data.length := by
  induction n generalizing data xs with
  | zero =>
      obtain rfl := Option.some.inj h
      simp
  | succ n ih =>
      simp only [takeMany, Option.bind_eq_some_iff, Option.map_eq_some_iff, Prod.exists] at h
      obtain ⟨x, data', hx, xs, hxs, rfl⟩ := h
      obtain ⟨hlength, hfits⟩ := ih hxs
      have := hsize.length_eq hx
      rw [List.length_cons, Nat.mul_succ]
      omega

theorem takeMany_extend (hsize : FixedSize take k) (h : takeMany take n data = some xs)
    (rest : Bytes) : takeMany take n (data ++ rest) = some xs := by
  induction n generalizing data xs with
  | zero => exact h
  | succ n ih =>
      simp only [takeMany, Option.bind_eq_some_iff, Option.map_eq_some_iff, Prod.exists] at h
      obtain ⟨x, data', hx, xs, hxs, rfl⟩ := h
      simp [takeMany, hsize.extend hx, ih hxs]

theorem at?_eq_some_iff :
    at? data offset = some tail ↔
      offset.toNat ≤ Word.max64 ∧ offset.toNat ≤ data.length ∧ data.drop offset.toNat = tail := by
  by_cases hindex : offset.toNat ≤ Word.max64
  · simp [at?, index?, hindex]
  · simp [at?, index?, hindex]

theorem at?_extend (h : at? data offset = some tail) (rest : Bytes) :
    at? (data ++ rest) offset = some (tail ++ rest) := by
  obtain ⟨hindex, hfits, rfl⟩ := at?_eq_some_iff.mp h
  rw [at?_eq_some_iff, List.length_append, List.drop_append_of_le_length hfits]
  exact ⟨hindex, by omega, rfl⟩

theorem arrayAt?_eq_some_iff :
    arrayAt? take data offset = some xs ↔
      ∃ column length tail n, at? data offset = some column ∧
        takeWord column = some (length, tail) ∧ index? length = some n ∧
        takeMany take n tail = some xs := by
  simp [arrayAt?, Option.bind_eq_some_iff]

/-- An array lies within the data, its length and its elements. -/
theorem arrayAt?_fits (hsize : FixedSize take k) (h : arrayAt? take data offset = some xs) :
    offset.toNat + 32 + k * xs.length ≤ data.length := by
  obtain ⟨column, length, tail, n, hcolumn, hlength, -, hxs⟩ := arrayAt?_eq_some_iff.mp h
  obtain ⟨-, hoffset, rfl⟩ := at?_eq_some_iff.mp hcolumn
  obtain ⟨rfl, hfits⟩ := takeMany_fits hsize hxs
  have := takeWord_fixedSize.length_eq hlength
  rw [List.length_drop] at this
  omega

theorem arrayAt?_extend (hsize : FixedSize take k) (h : arrayAt? take data offset = some xs)
    (rest : Bytes) : arrayAt? take (data ++ rest) offset = some xs := by
  obtain ⟨column, length, tail, n, hcolumn, hlength, hn, hxs⟩ := arrayAt?_eq_some_iff.mp h
  exact arrayAt?_eq_some_iff.mpr ⟨_, _, _, n, at?_extend hcolumn rest,
    takeWord_fixedSize.extend hlength rest, hn, takeMany_extend hsize hxs rest⟩

end Elements

/-! ## Reading offer lists -/

namespace OfferList

variable {data front tail : Bytes} {l : OfferList}

/-- An offer list is read off data with a head of four words, the next offer and three offsets, if
its columns are found at the offsets. -/
theorem decode?_eq_some_iff :
    decode? data = some l ↔
      ∃ ids offers details tail,
        takeWords 4 data = some ([l.nextOffer, ids, offers, details], tail) ∧
        arrayAt? takeWord data ids = some l.ids ∧
        arrayAt? ListedOffer.take data offers = some l.offers ∧
        arrayAt? ListedDetail.take data details = some l.details := by
  constructor
  · intro h
    unfold decode? at h
    split at h
    next nextOffer ids offers details tail hwords =>
      simp only [Option.bind_eq_some_iff, Option.map_eq_some_iff] at h
      obtain ⟨_, hids, _, hoffers, _, hdetails, rfl⟩ := h
      exact ⟨ids, offers, details, tail, hwords, hids, hoffers, hdetails⟩
    next => cases h
  · rintro ⟨ids, offers, details, tail, hwords, hids, hoffers, hdetails⟩
    simp [decode?, hwords, hids, hoffers, hdetails]

/-- What was read stays read when more bytes follow. -/
theorem decode?_extend (h : decode? data = some l) (rest : Bytes) :
    decode? (data ++ rest) = some l := by
  obtain ⟨ids, offers, details, tail, hwords, hids, hoffers, hdetails⟩ := decode?_eq_some_iff.mp h
  exact decode?_eq_some_iff.mpr ⟨ids, offers, details, tail ++ rest,
    (takeWords_fixedSize 4).extend hwords rest,
    arrayAt?_extend takeWord_fixedSize hids rest,
    arrayAt?_extend ListedOffer.fixedSize hoffers rest,
    arrayAt?_extend ListedDetail.fixedSize hdetails rest⟩

/-- The head of an encoding: the next offer and the offsets of the columns. -/
theorem takeWords_encode (l : OfferList) :
    takeWords 4 l.encode = some (l.nextOffer :: offsets 128 l.columns, l.columns.flatten) := by
  have := takeWords_append (l.nextOffer :: offsets 128 l.columns) l.columns.flatten
  rwa [List.length_cons, length_offsets] at this

/-- The place where the last column of an encoding starts. -/
def detailsStart (l : OfferList) : Nat :=
  128 + (column Word.bytes l.ids).length + (column ListedOffer.bytes l.offers).length

/-- The last column reaches to the end of the encoding. -/
theorem length_encode_eq (l : OfferList) :
    l.encode.length = l.detailsStart + 32 + 128 * l.details.length := by
  rw [length_encode, detailsStart, length_column Word.length_bytes,
    length_column ListedOffer.length_bytes]
  omega

/-- Data with the head of an encoding is no shorter than the encoding if it is read as the list:
the last column has room in it. -/
theorem length_encode_le (hfits : l.encode.length ≤ Word.max64)
    (hhead : takeWords 4 data = some (l.nextOffer :: offsets 128 l.columns, tail))
    (h : decode? data = some l) : l.encode.length ≤ data.length := by
  obtain ⟨ids, offers, details, tail', hwords, -, -, hdetails⟩ := decode?_eq_some_iff.mp h
  rw [hhead] at hwords
  obtain rfl : natWord l.detailsStart = details := by
    simp only [columns, offsets, Option.some.injEq, Prod.mk.injEq, List.cons.injEq] at hwords
    exact hwords.1.2.2.2.1
  have hstart : (natWord l.detailsStart).toNat = l.detailsStart := by
    have hmax : Word.max64 ≤ Word.maxNat := by decide
    have := l.length_encode_eq
    exact Word.toNat_ofNat_of_le (by omega)
  have hend := arrayAt?_fits ListedDetail.fixedSize hdetails
  rwa [hstart, ← length_encode_eq] at hend

/-- No strict prefix of an encoding is read as anything. -/
theorem decode?_of_prefix (hfits : l.encode.length ≤ Word.max64) (h : front <+: l.encode)
    (hstrict : front ≠ l.encode) : decode? front = none := by
  obtain ⟨cut, hcut⟩ := h
  cases hread : decode? front with
  | none => rfl
  | some l' =>
      -- With the rest behind it the prefix is the whole encoding, so what was read is `l` itself.
      have hwhole : decode? l.encode = some l' := hcut ▸ decode?_extend hread cut
      have hback : decode? l.encode = some l := by simpa using decode?_encode l hfits []
      obtain rfl : l' = l := Option.some.inj (hwhole.symm.trans hback)
      obtain ⟨_, _, _, tail, hwords, -⟩ := decode?_eq_some_iff.mp hread
      have hhead := (takeWords_fixedSize 4).extend hwords cut
      rw [hcut, takeWords_encode] at hhead
      obtain ⟨hoffsets, -⟩ := Prod.mk.inj (Option.some.inj hhead)
      have hlength := length_encode_le hfits (hoffsets ▸ hwords) hread
      have hcutLength : front.length + cut.length = l'.encode.length := by
        rw [← List.length_append, hcut]
      have hnil : cut = [] := List.eq_nil_of_length_eq_zero (by omega)
      exact absurd (by rw [← hcut, hnil, List.append_nil]) hstrict

end OfferList

end OfferBook.Contract

namespace OfferBook.Fetcher

/-- Of the data of a first result, fetching looks at the offer list alone. -/
private theorem tryFetch_congr_of_decode? {f : Fetcher} {r other : Reader} {block : Nat}
    {success : Bool} {data data' : Bytes} {results results' : List Contract.CallResult}
    (h : r.batch f.request block = .ok (⟨success, data⟩ :: results))
    (h' : other.batch f.request block = .ok (⟨success, data'⟩ :: results'))
    (hsame : Contract.OfferList.decode? data' = Contract.OfferList.decode? data) :
    f.tryFetch other block = f.tryFetch r block := by
  simp only [tryFetch, h, h', interpret, interpretResult, hsame]

/-- **A truncated response is never taken for a smaller book.** An offer list whose encoding 64
bits can address is read back from it with any bytes behind it, and a reader that answers with
them yields what a reader yields that answers with the encoding alone. No strict prefix of the
encoding is read as an offer list, and a reader that answers with one yields the fault that its
data is none, with nothing to remark. -/
theorem tryFetch_whole_or_undecodable (f : Fetcher) (block : Nat) (l : Contract.OfferList)
    (hfits : l.encode.length ≤ Word.max64) :
    (∀ rest, Contract.OfferList.decode? (l.encode ++ rest) = some l) ∧
      (∀ rest (r other : Reader) results results',
        r.batch f.request block = .ok (⟨true, l.encode⟩ :: results) →
        other.batch f.request block = .ok (⟨true, l.encode ++ rest⟩ :: results') →
        f.tryFetch other block = f.tryFetch r block) ∧
      (∀ front, front <+: l.encode → front ≠ l.encode →
        Contract.OfferList.decode? front = none ∧
          ∀ (r : Reader) results,
            r.batch f.request block = .ok (⟨true, front⟩ :: results) →
            f.tryFetch r block = ⟨.error .undecodable, []⟩) := by
  refine ⟨l.decode?_encode hfits, fun rest r other results results' h h' => ?_,
    fun front hfront hstrict => ?_⟩
  · have hwhole := l.decode?_encode hfits []
    rw [List.append_nil] at hwhole
    exact tryFetch_congr_of_decode? h h' ((l.decode?_encode hfits rest).trans hwhole.symm)
  · have hnone := Contract.OfferList.decode?_of_prefix hfits hfront hstrict
    refine ⟨hnone, fun r results h => ?_⟩
    rw [tryFetch, h, interpret, interpretResult_of_unread rfl hnone]

/-- A list of one offer, with two bytes behind it and with its last byte missing. -/
theorem tryFetch_whole_or_undecodable_one_offer :
    let f : Fetcher := ⟨0xcc, ⟨0xaa, 0xbb, 1⟩, 5⟩
    let l : Contract.OfferList := ⟨0, [3], [⟨0, 0, 4, 5⟩], [⟨0xdd, 0, 0, 0⟩]⟩
    let answering (data : Bytes) : Reader := InMemoryReader.empty.reader.withResults [⟨true, data⟩]
    l.encode.length ≤ Word.max64 ∧
      f.tryFetch (answering (l.encode ++ [1, 2])) 12 = f.tryFetch (answering l.encode) 12 ∧
      f.tryFetch (answering (l.encode.take 511)) 12 = ⟨.error .undecodable, []⟩ := by
  intro f l answering
  have hlength : l.encode.length = 512 := l.length_encode
  have hfits : l.encode.length ≤ Word.max64 := by
    rw [hlength]
    decide
  have hstrict : l.encode.take 511 ≠ l.encode := fun h => by
    have := congrArg List.length h
    simp [hlength] at this
  obtain ⟨-, hlonger, hcut⟩ := tryFetch_whole_or_undecodable f 12 l hfits
  exact ⟨hfits, hlonger [1, 2] _ _ [] [] rfl rfl,
    (hcut _ (List.take_prefix 511 _) hstrict).2 _ [] rfl⟩

end OfferBook.Fetcher
