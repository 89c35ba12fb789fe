import OfferBook.Contract.Layout

/-!
# Batches of calls

An aggregating contract makes many calls in one: the batch names for every call the contract to
call and the call data, and the answer has for every call whether it succeeded and what it
returned. Calls are allowed to fail one by one, which the leading zero of the question asks for.

Main results:

* `decodeBatch?_encodeBatch`, `decodeResults?_encodeResults`: a batch and its results are read back
  from their data, whatever follows it.
-/

namespace OfferBook.Contract

/-- The selector of the batch question. -/
def aggregateSelector : Bytes := [0xbc, 0xe3, 0x8b, 0xd7]

/-- One call of a batch. -/
structure Call where
  target : Address
  data : Bytes
  deriving DecidableEq

/-- What became of one call of a batch. -/
structure CallResult where
  success : Bool
  data : Bytes
  deriving DecidableEq

namespace Call

/-- A call in a layout: its target, the offset of its data, its data. -/
def layout (c : Call) : Bytes :=
  (Word.ofAddress c.target).bytes ++ (natWord 64).bytes ++ tailOfBytes c.data

/-- Reads a call off its layout. -/
def ofLayout? (data : Bytes) : Option Call :=
  match takeWords 2 data with
  | some ([target, offset], _) =>
    (bytesAt? data offset).map fun callData => ⟨target.address, callData⟩
  | _ => none

end Call

namespace CallResult

/-- A result in a layout: whether the call succeeded, the offset of its data, its data. -/
def layout (r : CallResult) : Bytes :=
  (Word.ofBool r.success).bytes ++ (natWord 64).bytes ++ tailOfBytes r.data

/-- Reads a result off its layout. -/
def ofLayout? (data : Bytes) : Option CallResult :=
  match takeWords 2 data with
  | some ([success, offset], _) =>
    (bytesAt? data offset).map fun returned => ⟨success.truth, returned⟩
  | _ => none

end CallResult

/-- A batch as call data: no call is required to succeed, and these are the calls. -/
def encodeBatch (calls : List Call) : Bytes :=
  aggregateSelector ++ ((Word.ofBool false).bytes ++ (natWord 64).bytes ++
    tailOfLayouts (calls.map Call.layout))

/-- Reads a batch off call data: whether every call is required to succeed, and the calls. -/
def decodeBatch? (data : Bytes) : Option (Bool × List Call) :=
  if data.take 4 = aggregateSelector then
    let arguments := data.drop 4
    match takeWords 2 arguments with
    | some ([required, offset], _) =>
      (layoutsAt? Call.ofLayout? arguments offset).map fun calls => (required.truth, calls)
    | _ => none
  else none

/-- The results of a batch as return data. -/
def encodeResults (results : List CallResult) : Bytes :=
  (natWord 32).bytes ++ tailOfLayouts (results.map CallResult.layout)

/-- Reads the results of a batch off return data. -/
def decodeResults? (data : Bytes) : Option (List CallResult) :=
  (takeWord data).bind fun (offset, _) => layoutsAt? CallResult.ofLayout? data offset

/-! ## Reading back -/

/-- A word and a byte string laid out together are read back, whatever follows them. -/
private theorem word_and_bytes {w : Word} {bs : Bytes}
    (hfits : (w.bytes ++ (natWord 64).bytes ++ tailOfBytes bs).length ≤ Word.max64)
    (rest : Bytes) :
    let data := w.bytes ++ (natWord 64).bytes ++ tailOfBytes bs ++ rest
    takeWords 2 data = some ([w, natWord 64], tailOfBytes bs ++ rest) ∧
      bytesAt? data (natWord 64) = some bs := by
  intro data
  let head : Bytes := [w, natWord 64].flatMap Word.bytes
  have hhead : head.length = 64 := by simp [head]
  have hdata : data = head ++ (tailOfBytes bs ++ rest) := by simp [data, head]
  have hbs : bs.length ≤ Word.max64 := by
    simp only [tailOfBytes, List.length_append] at hfits
    omega
  have hfront : head.length ≤ Word.max64 := by
    rw [hhead]
    decide
  have hbytes := bytesAt?_append hfront hbs rest
  rw [hhead] at hbytes
  rw [hdata]
  exact ⟨takeWords_append [w, natWord 64] _, hbytes⟩

theorem Call.ofLayout?_layout_append (c : Call) (hfits : c.layout.length ≤ Word.max64)
    (rest : Bytes) : ofLayout? (c.layout ++ rest) = some c := by
  obtain ⟨hwords, hbytes⟩ := word_and_bytes hfits rest
  simp only [ofLayout?, layout, hwords, hbytes, Option.map_some, Word.address_ofAddress]

theorem CallResult.ofLayout?_layout_append (r : CallResult)
    (hfits : r.layout.length ≤ Word.max64) (rest : Bytes) :
    ofLayout? (r.layout ++ rest) = some r := by
  obtain ⟨hwords, hbytes⟩ := word_and_bytes hfits rest
  simp only [ofLayout?, layout, hwords, hbytes, Option.map_some, Word.truth_ofBool]

/-- A batch is read back off its call data, whatever follows it, as long as the data is no longer
than 64 bits can address. -/
theorem decodeBatch?_encodeBatch {calls : List Call}
    (hfits : (encodeBatch calls).length ≤ Word.max64) (rest : Bytes) :
    decodeBatch? (encodeBatch calls ++ rest) = some (false, calls) := by
  let head : Bytes := [Word.ofBool false, natWord 64].flatMap Word.bytes
  let tail : Bytes := tailOfLayouts (calls.map Call.layout)
  have hhead : head.length = 64 := by simp [head]
  have hselector : aggregateSelector.length = 4 := rfl
  have hdata : encodeBatch calls ++ rest = aggregateSelector ++ (head ++ (tail ++ rest)) := by
    simp [encodeBatch, head, tail]
  have htake : (encodeBatch calls ++ rest).take 4 = aggregateSelector := by
    rw [hdata, ← hselector, List.take_left]
  have hdrop : (encodeBatch calls ++ rest).drop 4 = head ++ (tail ++ rest) := by
    rw [hdata, ← hselector, List.drop_left]
  have hwords : takeWords 2 (head ++ (tail ++ rest)) =
      some ([Word.ofBool false, natWord 64], tail ++ rest) :=
    takeWords_append [Word.ofBool false, natWord 64] _
  have htail : head.length + tail.length ≤ Word.max64 := by
    have hlength := congrArg List.length hdata
    simp only [List.length_append] at hlength
    omega
  have hcalls := layoutsAt?_append Call.ofLayout?_layout_append htail rest
  rw [hhead] at hcalls
  simp only [decodeBatch?, htake, hdrop, hwords, hcalls, tail, if_true, Option.map_some,
    Word.truth_ofBool]

/-- The results of a batch are read back off their return data, whatever follows it, as long as
the data is no longer than 64 bits can address. -/
theorem decodeResults?_encodeResults {results : List CallResult}
    (hfits : (encodeResults results).length ≤ Word.max64) (rest : Bytes) :
    decodeResults? (encodeResults results ++ rest) = some results := by
  have hhead : (natWord 32).bytes.length = 32 := Word.length_bytes _
  have htail : (natWord 32).bytes.length + (tailOfLayouts (results.map CallResult.layout)).length ≤
      Word.max64 := by
    rwa [encodeResults, List.length_append] at hfits
  have hresults := layoutsAt?_append CallResult.ofLayout?_layout_append htail rest
  rw [hhead] at hresults
  rw [encodeResults, List.append_assoc, decodeResults?, takeWord_bytes_append, Option.bind_some]
  exact hresults

end OfferBook.Contract
