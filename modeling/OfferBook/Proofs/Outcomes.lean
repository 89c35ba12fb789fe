import OfferBook.Fetcher
import OfferBook.Node
import OfferBook.Proofs.Consistency
import OfferBook.Reader.InMemory

/-!
# What fetching comes to

The answer to the batch that describes a market's book may be anything: a fault, no result at all,
or results with whatever data. `Fetcher.Yields` lists what fetching makes of it, one rule for each
outcome, in the order in which the conditions are looked at: every rule supposes that those before
it do not apply. The rules leave no answer out, so they are what fetching does
(`tryFetch_eq_iff_yields`).

Of the faults that fetching itself finds one is permanent, the market that is not known, and it
hangs on the success of the first result alone. What the data then holds decides between faults that
may be gone the next time and a book.

## Main results

* `rows_of_inRange`, `rows_of_outside`: rows make entries up to the first tick out of range.
* `tryFetch_eq_iff_yields`: the rules are what fetching does.
* `InMemoryReader.transient_reader`, `Node.transient_reader`: no reader at hand fails for good.
* `Classified`, `fetch_classified`: every outcome, what it hangs on, and the remark on a book that
  is cut.
-/

namespace OfferBook

/-! ## Rows -/

/-- The columns of an offer list agree in length. -/
def Contract.OfferList.Aligned (l : Contract.OfferList) : Prop :=
  l.ids.length = l.offers.length ∧ l.offers.length = l.details.length

namespace Book

variable {ids : List Word} {os front back : List Contract.ListedOffer}
  {ds : List Contract.ListedDetail} {id : Word} {o : Contract.ListedOffer}
  {d : Contract.ListedDetail} {l : Contract.OfferList} {block : Nat}

private theorem ofListed_of_inRange (id : Word) (d : Contract.ListedDetail)
    (h : ¬ Tick.Outside o.tick.toInt) :
    ∃ e, Entry.ofListed id o d = .ok e := by
  cases htick : Tick.ofInt? o.tick.toInt with
  | none => exact absurd (Tick.ofInt?_eq_none_iff.mp htick) h
  | some tick => exact ⟨_, by rw [Entry.ofListed, Offer.ofListed, htick]; rfl⟩

private theorem ofListed_of_outside (h : Tick.Outside o.tick.toInt) :
    Entry.ofListed id o d = .error (.tickOutOfRange o.tick.toInt) := by
  rw [Entry.ofListed, Offer.ofListed, Tick.ofInt?_eq_none_iff.mpr h]
  rfl

/-- Rows whose ticks are in range make entries. -/
theorem rows_of_inRange (ids : List Word) (ds : List Contract.ListedDetail)
    (h : ∀ o ∈ os, ¬ Tick.Outside o.tick.toInt) :
    ∃ es, rows ids os ds = .ok es := by
  fun_induction rows ids os ds with
  | case1 id ids o os d ds ih =>
      obtain ⟨e, he⟩ := ofListed_of_inRange id d (h o List.mem_cons_self)
      obtain ⟨es, hes⟩ := ih fun x hx => h x (List.mem_cons_of_mem o hx)
      exact ⟨e :: es, by rw [he, hes]; rfl⟩
  | case2 => exact ⟨[], rfl⟩

/-- Next to an offer there is an identifier, and there are details. -/
private theorem exists_row (hids : ids.length = (o :: os).length)
    (hds : (o :: os).length = ds.length) :
    ∃ id ids' d ds', ids = id :: ids' ∧ ds = d :: ds' ∧ ids'.length = os.length ∧
      os.length = ds'.length := by
  obtain ⟨id, ids', rfl⟩ := List.exists_cons_of_length_eq_add_one hids
  obtain ⟨d, ds', rfl⟩ := List.exists_cons_of_length_eq_add_one hds.symm
  exact ⟨id, ids', d, ds', rfl, rfl, Nat.succ.inj hids, Nat.succ.inj hds⟩

/-- The first tick out of range is the fault of all rows. -/
theorem rows_of_outside (hids : ids.length = (front ++ o :: back).length)
    (hds : (front ++ o :: back).length = ds.length)
    (hfront : ∀ x ∈ front, ¬ Tick.Outside x.tick.toInt) (h : Tick.Outside o.tick.toInt) :
    rows ids (front ++ o :: back) ds = .error (.tickOutOfRange o.tick.toInt) := by
  induction front generalizing ids ds with
  | nil =>
      obtain ⟨id, ids, d, ds, rfl, rfl, -, -⟩ := exists_row hids hds
      rw [List.nil_append, rows, ofListed_of_outside h]
      rfl
  | cons x front ih =>
      obtain ⟨id, ids, d, ds, rfl, rfl, hids, hds⟩ := exists_row hids hds
      obtain ⟨e, he⟩ := ofListed_of_inRange id d (hfront x List.mem_cons_self)
      have hrest := ih hids hds fun y hy => hfront y (List.mem_cons_of_mem x hy)
      rw [List.cons_append, rows, he, hrest]
      rfl

theorem ofOfferList_of_aligned (h : l.Aligned) :
    ofOfferList block l =
      (rows l.ids l.offers l.details).map fun es => ⟨block, l.nextOffer, Entry.sort es⟩ :=
  if_pos h

theorem ofOfferList_of_misaligned (h : ¬ l.Aligned) :
    ofOfferList block l =
      .error (.misaligned l.ids.length l.offers.length l.details.length) :=
  if_neg h

/-- A list makes a book if its columns agree in length and its ticks are in range. -/
theorem ofOfferList_of_inRange (halign : l.Aligned)
    (h : ∀ o ∈ l.offers, ¬ Tick.Outside o.tick.toInt) : ∃ b, ofOfferList block l = .ok b := by
  obtain ⟨es, hes⟩ := rows_of_inRange l.ids l.details h
  exact ⟨_, by rw [ofOfferList_of_aligned halign, hes]; rfl⟩

/-- A list of offers has a first tick out of range, or none. -/
theorem firstOutside_or_inRange (os : List Contract.ListedOffer) :
    (∃ front o back, os = front ++ o :: back ∧ (∀ x ∈ front, ¬ Tick.Outside x.tick.toInt) ∧
        Tick.Outside o.tick.toInt) ∨
      ∀ o ∈ os, ¬ Tick.Outside o.tick.toInt := by
  cases h : os.find? fun o => Tick.Outside o.tick.toInt with
  | none => exact .inr (by simpa using h)
  | some o =>
      obtain ⟨hout, front, back, hos, hfront⟩ := List.find?_eq_some_iff_append.mp h
      exact .inl ⟨front, o, back, hos, by simpa using hfront, by simpa using hout⟩

/-- The first tick out of range is the fault of a list whose columns agree in length. -/
theorem ofOfferList_of_outside (halign : l.Aligned) (hoffers : l.offers = front ++ o :: back)
    (hfront : ∀ x ∈ front, ¬ Tick.Outside x.tick.toInt) (h : Tick.Outside o.tick.toInt) :
    ofOfferList block l = .error (.tickOutOfRange o.tick.toInt) := by
  have hids := hoffers ▸ halign.1
  have hdetails := hoffers ▸ halign.2
  rw [ofOfferList_of_aligned halign, hoffers, rows_of_outside hids hdetails hfront h]
  rfl

end Book

/-! ## The rules -/

namespace Fetcher

variable {f : Fetcher} {block : Nat} {answer : Except Fault (List Contract.CallResult)}
  {outcome : Except Fault Book}

/-- What fetching makes of an answer to the batch. -/
inductive Yields (f : Fetcher) (block : Nat) :
    Except Fault (List Contract.CallResult) → Except Fault Book → Prop
  /-- A batch that failed is its own fault. -/
  | failed {fault : Fault} : Yields f block (.error fault) (.error fault)
  /-- There is no first result. -/
  | emptyBatch : Yields f block (.ok []) (.error (.decode .emptyBatch))
  /-- The first result did not succeed; its data is not looked at. -/
  | marketNotFound {result : Contract.CallResult} {rest : List Contract.CallResult}
      (hsuccess : result.success = false) :
      Yields f block (.ok (result :: rest)) (.error (.marketNotFound f.market))
  /-- The data of the first result is no offer list. -/
  | undecodable {result : Contract.CallResult} {rest : List Contract.CallResult}
      (hsuccess : result.success = true)
      (hl : Contract.OfferList.decode? result.data = none) :
      Yields f block (.ok (result :: rest)) (.error .undecodable)
  /-- The columns of the list do not agree in length. -/
  | misaligned {result : Contract.CallResult} {rest : List Contract.CallResult}
      {l : Contract.OfferList} (hsuccess : result.success = true)
      (hl : Contract.OfferList.decode? result.data = some l) (halign : ¬ l.Aligned) :
      Yields f block (.ok (result :: rest))
        (.error (.decode (.misaligned l.ids.length l.offers.length l.details.length)))
  /-- An offer of the list has a tick out of range, and none before it has. -/
  | tickOutOfRange {result : Contract.CallResult} {rest : List Contract.CallResult}
      {l : Contract.OfferList} {front back : List Contract.ListedOffer}
      {o : Contract.ListedOffer} (hsuccess : result.success = true)
      (hl : Contract.OfferList.decode? result.data = some l) (halign : l.Aligned)
      (hoffers : l.offers = front ++ o :: back)
      (hfront : ∀ x ∈ front, ¬ Tick.Outside x.tick.toInt) (hout : Tick.Outside o.tick.toInt) :
      Yields f block (.ok (result :: rest)) (.error (.decode (.tickOutOfRange o.tick.toInt)))
  /-- The list makes a book. -/
  | book {result : Contract.CallResult} {rest : List Contract.CallResult}
      {l : Contract.OfferList} {b : Book} (hsuccess : result.success = true)
      (hl : Contract.OfferList.decode? result.data = some l) (halign : l.Aligned)
      (hticks : ∀ o ∈ l.offers, ¬ Tick.Outside o.tick.toInt)
      (hb : Book.ofOfferList block l = .ok b) :
      Yields f block (.ok (result :: rest)) (.ok b)

/-- Each rule says what fetching does. -/
theorem value_interpret_of_yields (h : f.Yields block answer outcome) :
    (f.interpret block answer).value = outcome := by
  cases h with
  | failed => rfl
  | emptyBatch => rfl
  | marketNotFound hsuccess => rw [interpret, interpretResult_of_failed hsuccess]
  | undecodable hsuccess hl => rw [interpret, interpretResult_of_unread hsuccess hl]
  | misaligned hsuccess hl halign =>
      rw [interpret, interpretResult_of_read hsuccess hl, Book.ofOfferList_of_misaligned halign]
      rfl
  | tickOutOfRange hsuccess hl halign hoffers hfront hout =>
      rw [interpret, interpretResult_of_read hsuccess hl,
        Book.ofOfferList_of_outside halign hoffers hfront hout]
      rfl
  | book hsuccess hl halign hticks hb =>
      rw [interpret, interpretResult_of_read hsuccess hl, hb]
      rfl

/-- There is a rule for every answer. -/
theorem exists_yields (f : Fetcher) (block : Nat)
    (answer : Except Fault (List Contract.CallResult)) :
    ∃ outcome, f.Yields block answer outcome := by
  match answer with
  | .error fault => exact ⟨_, .failed⟩
  | .ok [] => exact ⟨_, .emptyBatch⟩
  | .ok (result :: rest) =>
      cases hsuccess : result.success with
      | false => exact ⟨_, .marketNotFound hsuccess⟩
      | true =>
          cases hl : Contract.OfferList.decode? result.data with
          | none => exact ⟨_, .undecodable hsuccess hl⟩
          | some l =>
              by_cases halign : l.Aligned
              · rcases Book.firstOutside_or_inRange l.offers with
                  ⟨front, o, back, hoffers, hfront, hout⟩ | hticks
                · exact ⟨_, .tickOutOfRange hsuccess hl halign hoffers hfront hout⟩
                · obtain ⟨b, hb⟩ := Book.ofOfferList_of_inRange halign hticks
                  exact ⟨_, .book hsuccess hl halign hticks hb⟩
              · exact ⟨_, .misaligned hsuccess hl halign⟩

/-- The rules are what fetching does: an outcome is that of some rule exactly if it is the one
that comes about. -/
theorem tryFetch_eq_iff_yields {r : Reader} :
    (f.tryFetch r block).value = outcome ↔ f.Yields block (r.batch f.request block) outcome := by
  refine ⟨fun h => ?_, value_interpret_of_yields⟩
  obtain ⟨found, hfound⟩ := exists_yields f block (r.batch f.request block)
  exact h ▸ value_interpret_of_yields hfound ▸ hfound

/-- A fetched book is a book of the block it was fetched at. -/
theorem block_tryFetch {r : Reader} {b : Book} (h : (f.tryFetch r block).value = .ok b) :
    b.block = block := by
  have hyields := tryFetch_eq_iff_yields.mp h
  generalize r.batch f.request block = answer at hyields
  cases hyields with
  | book hsuccess hl halign hticks hb => exact Book.block_ofOfferList hb

/-! ## What an outcome hangs on -/

/-- The first result of a batch did not succeed. -/
def FirstFailed (answer : Except Fault (List Contract.CallResult)) : Prop :=
  ∃ result rest, answer = .ok (result :: rest) ∧ result.success = false

/-- The first result of a batch is an offer list that fills the page, and there are offers behind
it. -/
def Cut (f : Fetcher) (answer : Except Fault (List Contract.CallResult)) : Prop :=
  ∃ result rest l, answer = .ok (result :: rest) ∧ result.success = true ∧
    Contract.OfferList.decode? result.data = some l ∧ f.pageSize.toNat ≤ l.ids.length ∧
    l.nextOffer ≠ 0

/-- A permanent fault is that of a first result that did not succeed, or it comes with the
batch. -/
theorem Yields.permanent_iff {fault : Fault} (h : f.Yields block answer (.error fault)) :
    fault.isPermanent = true ↔
      (FirstFailed answer ∧ fault = .marketNotFound f.market) ∨
        (answer = .error fault ∧ fault.isPermanent = true) := by
  cases h with
  | failed => simp [FirstFailed]
  | emptyBatch => simp [FirstFailed, Fault.isPermanent]
  | marketNotFound hsuccess => simp [FirstFailed, Fault.isPermanent, hsuccess]
  | undecodable hsuccess => simp [FirstFailed, Fault.isPermanent]
  | misaligned hsuccess => simp [FirstFailed, Fault.isPermanent]
  | tickOutOfRange hsuccess => simp [FirstFailed, Fault.isPermanent]

/-- The remark on a cut book is made of lists that are cut, whether or not they make a book. -/
theorem notices_interpret (f : Fetcher) (block : Nat)
    (answer : Except Fault (List Contract.CallResult)) :
    (f.Cut answer ∧ (f.interpret block answer).notices = [.truncatedBook]) ∨
      (¬ f.Cut answer ∧ (f.interpret block answer).notices = []) := by
  match answer with
  | .error fault => exact .inr ⟨by simp [Cut], rfl⟩
  | .ok [] => exact .inr ⟨by simp [Cut], rfl⟩
  | .ok (result :: rest) =>
      rw [interpret]
      cases hsuccess : result.success with
      | false => exact .inr ⟨by simp [Cut, hsuccess], by rw [interpretResult_of_failed hsuccess]⟩
      | true =>
          cases hl : Contract.OfferList.decode? result.data with
          | none =>
              exact .inr ⟨by simp [Cut, hl], by rw [interpretResult_of_unread hsuccess hl]⟩
          | some l =>
              have hcut : f.Cut (.ok (result :: rest)) ↔ f.truncates l = true := by
                simp [Cut, hsuccess, hl, truncates]
              rw [hcut, interpretResult_of_read hsuccess hl]
              by_cases h : f.truncates l = true
              · exact .inl ⟨h, if_pos h⟩
              · exact .inr ⟨h, if_neg h⟩

end Fetcher

/-- No batch fails for good. -/
def Reader.Transient (r : Reader) : Prop :=
  ∀ calls block fault, r.batch calls block = .error fault → fault.isPermanent = false

theorem InMemoryReader.transient_reader (r : InMemoryReader) : r.reader.Transient := by
  intro calls block fault h
  simp only [reader] at h
  split at h
  · obtain rfl := Except.error.inj h
    rfl
  · cases h

theorem Node.transient_reader (n : Node) (d : Deployment) : (n.reader d).Transient := by
  intro calls block fault h
  simp only [reader, results] at h
  repeat' split at h
  all_goals first | cases h; rfl | cases h

namespace Fetcher

variable {f : Fetcher} {r : Reader} {block : Nat}

theorem fetch_of_ok {b : Book} (h : (f.tryFetch r block).value = .ok b) :
    (f.fetch r block).value = b ∧ (f.fetch r block).notices = (f.tryFetch r block).notices := by
  simp [fetch, h]

theorem fetch_of_error {fault : Fault} (h : (f.tryFetch r block).value = .error fault) :
    (f.fetch r block).value = Book.empty block ∧
      (f.fetch r block).notices = (f.tryFetch r block).notices ++ [.fetchFailed] := by
  simp [fetch, h]

/-- What fetching from a reader comes to. -/
structure Classified (f : Fetcher) (r : Reader) (block : Nat) : Prop where
  /-- The outcome is that of the rules. -/
  rules : ∀ outcome,
    (f.tryFetch r block).value = outcome ↔ f.Yields block (r.batch f.request block) outcome
  /-- A book is one of the block asked for. -/
  block_eq : ∀ b, (f.tryFetch r block).value = .ok b → b.block = block
  /-- A fault is permanent if the first result did not succeed, whatever its data, or if it is a
  permanent fault of the batch. -/
  permanent_iff : ∀ fault, (f.tryFetch r block).value = .error fault →
    (fault.isPermanent = true ↔
      (FirstFailed (r.batch f.request block) ∧ fault = .marketNotFound f.market) ∨
        (r.batch f.request block = .error fault ∧ fault.isPermanent = true))
  /-- From a reader whose batches have no permanent faults, it is the first result alone. -/
  missing_iff : r.Transient → ∀ fault,
    ((f.tryFetch r block).value = .error fault ∧ fault.isPermanent = true) ↔
      (FirstFailed (r.batch f.request block) ∧ fault = .marketNotFound f.market)
  /-- Nothing hangs on the results after the first. -/
  first_only : ∀ result rest, r.batch f.request block = .ok (result :: rest) →
    ∀ (other : Reader) (rest' : List _), other.batch f.request block = .ok (result :: rest') →
      f.tryFetch other block = f.tryFetch r block
  /-- Fetching without faults gives the same book. -/
  fetch_ok : ∀ b, (f.tryFetch r block).value = .ok b → (f.fetch r block).value = b
  /-- In place of a fault it gives a book without offers. -/
  fetch_error : ∀ fault, (f.tryFetch r block).value = .error fault →
    (f.fetch r block).value = Book.empty block
  /-- The remark that the book is cut is made if it is, and no other. -/
  notices : f.Cut (r.batch f.request block) ∧ (f.tryFetch r block).notices = [.truncatedBook] ∨
    ¬ f.Cut (r.batch f.request block) ∧ (f.tryFetch r block).notices = []
  /-- Fetching without faults makes it as well. -/
  fetch_notices : Notice.truncatedBook ∈ (f.fetch r block).notices ↔
    f.Cut (r.batch f.request block)

/-- **What fetching comes to.** Whatever a reader answers to the batch, its outcome is that of
the rules, and a book is one of the block asked for. A fault is permanent if the first result of
the batch did not succeed, whatever its data, in which case the market is not known, or if the
batch itself failed for good, which no batch of a reader without permanent faults does. Nothing
hangs on the results after the first. Fetching without faults gives the same book, or else one
without offers, and either way the remark that the book is cut is made exactly if the data is an
offer list that fills the page and names a next offer, whether or not the list makes a book. -/
theorem fetch_classified (f : Fetcher) (r : Reader) (block : Nat) : f.Classified r block := by
  have hpermanent : ∀ fault, (f.tryFetch r block).value = .error fault →
      (fault.isPermanent = true ↔
        (FirstFailed (r.batch f.request block) ∧ fault = .marketNotFound f.market) ∨
          (r.batch f.request block = .error fault ∧ fault.isPermanent = true)) :=
    fun fault h => (tryFetch_eq_iff_yields.mp h).permanent_iff
  have hnotices := f.notices_interpret block (r.batch f.request block)
  exact
    { rules := fun outcome => tryFetch_eq_iff_yields
      block_eq := fun b => block_tryFetch
      permanent_iff := hpermanent
      missing_iff := by
        intro htransient fault
        constructor
        · rintro ⟨h, hfault⟩
          rcases (hpermanent fault h).mp hfault with hfailed | ⟨hanswer, -⟩
          · exact hfailed
          · rw [htransient _ _ _ hanswer] at hfault
            cases hfault
        · rintro ⟨⟨result, rest, hanswer, hsuccess⟩, rfl⟩
          have hyields : f.Yields block (r.batch f.request block)
              (.error (.marketNotFound f.market)) := hanswer ▸ .marketNotFound hsuccess
          exact ⟨tryFetch_eq_iff_yields.mpr hyields, rfl⟩
      first_only := by
        intro result rest hanswer other rest' hother
        simp only [tryFetch, hother, hanswer]
        rfl
      fetch_ok := fun b h => (fetch_of_ok h).1
      fetch_error := fun fault h => (fetch_of_error h).1
      notices := hnotices
      fetch_notices := by
        have hmem : Notice.truncatedBook ∈ (f.tryFetch r block).notices ↔
            f.Cut (r.batch f.request block) := by
          rcases hnotices with ⟨hcut, h⟩ | ⟨hcut, h⟩ <;> simp [tryFetch, h, hcut]
        rw [← hmem]
        cases h : (f.tryFetch r block).value with
        | ok b => rw [(fetch_of_ok h).2]
        | error fault => simp [(fetch_of_error h).2] }

/-- A page of one offer whose tick does not fit, with more offers behind it, and a second result
that did not succeed: there is no book, the remark is made all the same, and the fault may be gone
the next time. -/
theorem fetch_classified_cut_without_book :
    let f : Fetcher := ⟨0xcc, ⟨0xaa, 0xbb, 1⟩, 1⟩
    let l : Contract.OfferList := ⟨7, [3], [⟨0, 0, 0x80000000, 5⟩], [⟨0xdd, 0, 0, 0⟩]⟩
    let r : Reader := InMemoryReader.empty.reader.withResults [⟨true, l.encode⟩, ⟨false, []⟩]
    (f.tryFetch r 12).value = .error (.decode (.tickOutOfRange 0x80000000)) ∧
      (f.fetch r 12).value = Book.empty 12 ∧
      Notice.truncatedBook ∈ (f.fetch r 12).notices := by
  intro f l r
  have hl : Contract.OfferList.decode? l.encode = some l := by decide +kernel
  have hclassified := fetch_classified f r 12
  have hout : Tick.Outside (0x80000000 : Word).toInt := by decide
  have hoffers : l.offers = [] ++ ⟨0, 0, 0x80000000, 5⟩ :: [] := rfl
  have htried : (f.tryFetch r 12).value = .error (.decode (.tickOutOfRange 0x80000000)) :=
    (hclassified.rules _).mpr (.tickOutOfRange rfl hl ⟨rfl, rfl⟩ hoffers
      (fun _ h => absurd h List.not_mem_nil) hout)
  exact ⟨htried, hclassified.fetch_error _ htried,
    hclassified.fetch_notices.mpr ⟨_, _, l, rfl, rfl, hl, by decide, by decide⟩⟩

end Fetcher

end OfferBook
