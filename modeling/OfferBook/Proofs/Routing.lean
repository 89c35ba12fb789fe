import OfferBook.Route

/-!
# Where logs are routed

What a log means to a market can be read off its topics and its data by place. The declaration of
an event says how many of each it has. A log that fits the declaration of its kind carries its
fields at fixed places, of which a book reads a few: `Log.Reports` is the table of these. Nothing
of this needs an event of the contract to be put together first, which is how routing goes about
it.

`Routes` lists the seven ways in which a log can be routed, each with its condition on topics and
data. They exclude one another and leave no log out, so the list is the router (`routes_iff`).
What the conditions do not speak of has no influence: that is `Log.SameFor`.

## Main results

* `ofLog_of_fits`: a log that fits is read by place.
* `routes_iff`: the list of conditions is the router.
* `Routes.of_sameFor`: what a book does not read has no influence.
* `Classified`, `ofLog_classified`: which logs have which of the four outcomes.
-/

namespace OfferBook

/-! ## Places -/

namespace Log

variable {log log' : Log} {k : Contract.EventKind}

/-- The topic at a place. The first one selects the event. -/
def topic (log : Log) (i : Nat) : Word := log.topics.getD i 0

/-- The word of data at a place. -/
def word (log : Log) (i : Nat) : Word := wordAt log.data i

/-- The log fits the declaration of a kind: its first topic selects the kind, it has as many
topics as the kind has, and data for all words of the kind. -/
structure Fits (log : Log) (k : Contract.EventKind) : Prop where
  selected : log.topics.head? = some k.topic
  indexed : log.topics.length = k.indexedCount + 1
  data : 32 * k.wordCount ≤ log.data.length

/-- A log that selects a kind fails to fit it by the number of its topics or for lack of data. -/
theorem not_fits_iff (hselected : log.topics.head? = some k.topic) :
    ¬ log.Fits k ↔
      log.topics.length ≠ k.indexedCount + 1 ∨ log.data.length < 32 * k.wordCount := by
  constructor
  · intro hfits
    by_cases hindexed : log.topics.length = k.indexedCount + 1
    · exact .inr (Nat.lt_of_not_le fun hdata => hfits ⟨hselected, hindexed, hdata⟩)
    · exact .inl hindexed
  · rintro (hindexed | hdata) hfits
    · exact hindexed hfits.indexed
    · exact absurd hfits.data (Nat.not_le.mpr hdata)

/-- What a log of a kind reports to a book, by the places of what the book reads. -/
inductive Reports (log : Log) : Contract.EventKind → BookEvent → Prop where
  | orderStart : Reports log .orderStart .orderStart
  | orderComplete : Reports log .orderComplete .orderComplete
  | offerWrite {tick : Tick} (htick : (log.word 0).toInt = tick.val) :
      Reports log .offerWrite (.offerWrite (log.word 4) (log.topic 2).address tick (log.word 1)
        (log.word 3).clamp64 (log.word 2).clamp64)
  | offerRetract : Reports log .offerRetract (.offerRetract (log.word 0))
  | offerSuccess : Reports log .offerSuccess (.offerSuccess (log.topic 3))
  | offerSuccessWithPosthookData :
      Reports log .offerSuccessWithPosthookData (.offerSuccessWithPosthookData (log.topic 3))
  | offerFail : Reports log .offerFail (.offerFail (log.topic 3))
  | offerFailWithPosthookData :
      Reports log .offerFailWithPosthookData (.offerFailWithPosthookData (log.topic 3))

end Log

namespace Contract.EventKind

/-- The kinds no book reacts to. -/
def unused : List EventKind := [.setActive, .setFee, .credit, .debit]

/-- The places of the topics that are addresses. -/
def addressTopics : EventKind → List Nat
  | .setFee => []
  | .credit | .debit => [1]
  | .setActive => [2, 3]
  | _ => [2]

/-- The places of the words of data that a book reads. -/
def bookWords : EventKind → List Nat
  | .offerWrite => [0, 1, 2, 3, 4]
  | .offerRetract => [0]
  | _ => []

end Contract.EventKind

/-! ## Reading by place -/

section Reading

variable {market : Word} {log log' : Log} {k : Contract.EventKind} {e : BookEvent} {route : Route}

private theorem eq_map_getD (ws : List Word) :
    ws = (List.range ws.length).map fun i => ws.getD i 0 := by
  refine List.ext_getElem (by simp) fun i hi _ => ?_
  simp [List.getD_eq_getElem?_getD, hi]

/-- An event has as many parameters as its kind. -/
theorem Contract.Event.length_of_ofWords? {indexed words : List Word} {reported : Contract.Event}
    (h : Contract.Event.ofWords? k indexed words = some reported) :
    indexed.length = k.indexedCount ∧ words.length = k.wordCount := by
  unfold Contract.Event.ofWords? at h
  split at h <;> first | exact ⟨rfl, rfl⟩ | cases h

/-- The first topic decides which kind a log is read as. -/
theorem Route.ofLog_of_selected {indexed : List Word} (h : log.topics = k.topic :: indexed) :
    Route.ofLog market log =
      ((Contract.Event.ofData? k indexed log.data).map (Route.ofEvent market)).getD
        (.malformed .shape) := by
  simp only [Route.ofLog, Contract.read, h, Contract.EventKind.ofTopic?_topic]
  cases Contract.Event.ofData? k indexed log.data <;> rfl

/-- A log that fits is read by place. -/
theorem Route.ofLog_of_fits (h : log.Fits k) :
    Route.ofLog market log =
      ((Contract.Event.ofWords? k ((List.range k.indexedCount).map fun i => log.topic (i + 1))
          ((List.range k.wordCount).map log.word)).map (Route.ofEvent market)).getD
        (.malformed .shape) := by
  obtain ⟨indexed, htopics⟩ := List.head?_eq_some_iff.mp h.selected
  have hlength : indexed.length = k.indexedCount := by
    have := h.indexed
    rw [htopics, List.length_cons] at this
    omega
  have hindexed : indexed = (List.range k.indexedCount).map fun i => log.topic (i + 1) := by
    rw [← hlength]
    simpa only [Log.topic, htopics, List.getD_cons_succ] using eq_map_getD indexed
  rw [Route.ofLog_of_selected htopics, Contract.Event.ofData?, takeWords_eq, if_pos h.data,
    Option.bind_some, ← hindexed]
  rfl

/-- A log that selects a kind and does not fit its declaration cannot be read. -/
theorem Route.ofLog_of_not_fits (hselected : log.topics.head? = some k.topic) (h : ¬ log.Fits k) :
    Route.ofLog market log = .malformed .shape := by
  obtain ⟨indexed, htopics⟩ := List.head?_eq_some_iff.mp hselected
  have hnone : Contract.Event.ofData? k indexed log.data = none := by
    refine Option.eq_none_iff_forall_ne_some.mpr fun reported hreported => h ?_
    rw [Contract.Event.ofData?, takeWords_eq] at hreported
    split at hreported
    next hdata =>
      obtain ⟨hlength, -⟩ := Contract.Event.length_of_ofWords? hreported
      exact ⟨hselected, by rw [htopics, List.length_cons, hlength], hdata⟩
    next => cases hreported
  rw [Route.ofLog_of_selected htopics, hnone]
  rfl

end Reading

/-! ## The router as a list of conditions -/

/-- How a log can be routed to a market. -/
inductive Routes (market : Word) (log : Log) : Route → Prop where
  | anonymous (htopics : log.topics = []) : Routes market log (.unhandled .anonymous)
  | undeclared {selector : Word} (hselector : log.topics.head? = some selector)
      (hundeclared : ∀ k : Contract.EventKind, selector ≠ k.topic) :
      Routes market log (.unhandled .undeclared)
  | unused {k : Contract.EventKind} (hfits : log.Fits k) (hunused : k ∈ Contract.EventKind.unused) :
      Routes market log (.unhandled .unused)
  | shape {k : Contract.EventKind} (hselected : log.topics.head? = some k.topic)
      (hfits : ¬ log.Fits k) : Routes market log (.malformed .shape)
  | tick (hfits : log.Fits .offerWrite) (houtside : Tick.Outside (log.word 0).toInt) :
      Routes market log (.malformed (.tick (log.word 0).toInt))
  | foreign {k : Contract.EventKind} {e : BookEvent} (hfits : log.Fits k)
      (hreports : log.Reports k e) (hother : log.topic 1 ≠ market) : Routes market log .foreign
  | apply {k : Contract.EventKind} {e : BookEvent} (hfits : log.Fits k)
      (hreports : log.Reports k e) (hown : log.topic 1 = market) : Routes market log (.apply e)

section Conditions

variable {market : Word} {log log' : Log} {k : Contract.EventKind} {e : BookEvent} {route : Route}

theorem Route.ofLog_of_reports (hfits : log.Fits k) (h : log.Reports k e) :
    Route.ofLog market log = if log.topic 1 = market then .apply e else .foreign := by
  rw [Route.ofLog_of_fits hfits]
  cases h with
  | offerWrite htick =>
      show Route.ofEvent market (.offerWrite ..) = _
      rw [Route.ofEvent, BookEvent.ofContract, htick, Tick.ofInt?_val]
  | _ => rfl

theorem Route.ofLog_of_unused (hfits : log.Fits k) (h : k ∈ Contract.EventKind.unused) :
    Route.ofLog market log = .unhandled .unused := by
  rw [Route.ofLog_of_fits hfits]
  simp only [Contract.EventKind.unused, List.mem_cons, List.not_mem_nil, or_false] at h
  rcases h with rfl | rfl | rfl | rfl <;> rfl

theorem Route.ofLog_of_tickOutside (hfits : log.Fits .offerWrite)
    (h : Tick.Outside (log.word 0).toInt) :
    Route.ofLog market log = .malformed (.tick (log.word 0).toInt) := by
  rw [Route.ofLog_of_fits hfits]
  show Route.ofEvent market (.offerWrite ..) = _
  rw [Route.ofEvent, BookEvent.ofContract, Tick.ofInt?_eq_none_iff.mpr h]

/-- A log that fits its kind reports to a book, or is of a kind no book reacts to, or has a tick
that is none. -/
theorem Log.reports_of_fits (h : log.Fits k) :
    (∃ e, log.Reports k e) ∨ k ∈ Contract.EventKind.unused ∨
      k = .offerWrite ∧ Tick.Outside (log.word 0).toInt := by
  cases k with
  | offerWrite =>
      cases htick : Tick.ofInt? (log.word 0).toInt with
      | none => exact .inr (.inr ⟨rfl, Tick.ofInt?_eq_none_iff.mp htick⟩)
      | some tick => exact .inl ⟨_, .offerWrite (Tick.ofInt?_eq_some_iff.mp htick)⟩
  | setActive | setFee | credit | debit => exact .inr (.inl (by decide))
  | orderStart => exact .inl ⟨_, .orderStart⟩
  | orderComplete => exact .inl ⟨_, .orderComplete⟩
  | offerRetract => exact .inl ⟨_, .offerRetract⟩
  | offerSuccess => exact .inl ⟨_, .offerSuccess⟩
  | offerSuccessWithPosthookData => exact .inl ⟨_, .offerSuccessWithPosthookData⟩
  | offerFail => exact .inl ⟨_, .offerFail⟩
  | offerFailWithPosthookData => exact .inl ⟨_, .offerFailWithPosthookData⟩

/-- The conditions of the list decide the route. -/
theorem Routes.ofLog_eq (h : Routes market log route) : Route.ofLog market log = route := by
  cases h with
  | anonymous htopics => simp [Route.ofLog, Contract.read, htopics]
  | undeclared hselector hundeclared =>
      obtain ⟨indexed, htopics⟩ := List.head?_eq_some_iff.mp hselector
      have hnone : Contract.EventKind.ofTopic? _ = none := List.find?_eq_none.mpr fun k _ => by
        simpa using Ne.symm (hundeclared k)
      simp [Route.ofLog, Contract.read, htopics, hnone]
  | unused hfits hunused => exact Route.ofLog_of_unused hfits hunused
  | shape hselected hfits => exact Route.ofLog_of_not_fits hselected hfits
  | tick hfits houtside => exact Route.ofLog_of_tickOutside hfits houtside
  | foreign hfits hreports hother => rw [Route.ofLog_of_reports hfits hreports, if_neg hother]
  | apply hfits hreports hown => rw [Route.ofLog_of_reports hfits hreports, if_pos hown]

/-- Every log meets a condition of the list. -/
theorem exists_routes (market : Word) (log : Log) : ∃ route, Routes market log route := by
  cases htopics : log.topics with
  | nil => exact ⟨_, .anonymous htopics⟩
  | cons selector indexed =>
      have hselector : log.topics.head? = some selector := by rw [htopics]; rfl
      by_cases hdeclared : ∃ k : Contract.EventKind, selector = k.topic
      · obtain ⟨k, rfl⟩ := hdeclared
        by_cases hfits : log.Fits k
        · rcases Log.reports_of_fits hfits with ⟨e, hreports⟩ | hunused | ⟨rfl, houtside⟩
          · by_cases hown : log.topic 1 = market
            · exact ⟨_, .apply hfits hreports hown⟩
            · exact ⟨_, .foreign hfits hreports hown⟩
          · exact ⟨_, .unused hfits hunused⟩
          · exact ⟨_, .tick hfits houtside⟩
        · exact ⟨_, .shape hselector hfits⟩
      · exact ⟨_, .undeclared hselector fun k hk => hdeclared ⟨k, hk⟩⟩

/-- The list of conditions is the router. -/
theorem routes_iff : Routes market log route ↔ Route.ofLog market log = route := by
  refine ⟨Routes.ofLog_eq, ?_⟩
  rintro rfl
  obtain ⟨route, hroute⟩ := exists_routes market log
  rwa [hroute.ofLog_eq]

end Conditions

/-! ## What has no influence -/

/-- The two logs are the same in what a book reads of an event of this kind. They have as many
topics, which may differ in the high bytes of addresses; both have data for the words of the kind
or neither has; and they may differ in words that no book reads, and in all bytes behind. -/
structure Log.SameFor (k : Contract.EventKind) (log log' : Log) : Prop where
  count : log'.topics.length = log.topics.length
  topics : ∀ i, i ∉ k.addressTopics → log'.topic i = log.topic i
  addresses : ∀ i ∈ k.addressTopics, (log'.topic i).address = (log.topic i).address
  data : 32 * k.wordCount ≤ log'.data.length ↔ 32 * k.wordCount ≤ log.data.length
  words : ∀ i ∈ k.bookWords, log'.word i = log.word i

section Influence

variable {market : Word} {log log' : Log} {k : Contract.EventKind} {e : BookEvent} {route : Route}

theorem Log.SameFor.fits_iff (h : log.SameFor k log')
    (hhead : log'.topics.head? = log.topics.head?) : log'.Fits k ↔ log.Fits k := by
  constructor
  · rintro ⟨hselected, hindexed, hdata⟩
    exact ⟨hhead ▸ hselected, h.count ▸ hindexed, h.data.mp hdata⟩
  · rintro ⟨hselected, hindexed, hdata⟩
    exact ⟨hhead ▸ hselected, h.count ▸ hindexed, h.data.mpr hdata⟩

/-- Logs that are the same in what a book reads report the same. -/
theorem Log.SameFor.reports (h : log.SameFor k log') (hreports : log.Reports k e) :
    log'.Reports k e := by
  cases hreports with
  | orderStart => exact .orderStart
  | orderComplete => exact .orderComplete
  | offerWrite htick =>
      rw [← h.words 1 (by decide), ← h.words 2 (by decide), ← h.words 3 (by decide),
        ← h.words 4 (by decide), ← h.addresses 2 (by decide)]
      exact .offerWrite (h.words 0 (by decide) ▸ htick)
  | offerRetract =>
      rw [← h.words 0 (by decide)]
      exact .offerRetract
  | offerSuccess =>
      rw [← h.topics 3 (by decide)]
      exact .offerSuccess
  | offerSuccessWithPosthookData =>
      rw [← h.topics 3 (by decide)]
      exact .offerSuccessWithPosthookData
  | offerFail =>
      rw [← h.topics 3 (by decide)]
      exact .offerFail
  | offerFailWithPosthookData =>
      rw [← h.topics 3 (by decide)]
      exact .offerFailWithPosthookData

/-- The market of an event that a book reads is no address. -/
theorem Log.SameFor.market_eq (h : log.SameFor k log') (hreports : log.Reports k e) :
    log'.topic 1 = log.topic 1 :=
  h.topics 1 (by cases hreports <;> decide)

/-- What no book reads has no influence on the route. -/
theorem Routes.of_sameFor (hhead : log'.topics.head? = log.topics.head?)
    (hsame : ∀ k : Contract.EventKind, log.topics.head? = some k.topic → log.SameFor k log')
    (h : Routes market log route) : Routes market log' route := by
  cases h with
  | anonymous htopics =>
      rw [htopics, List.head?_nil, List.head?_eq_none_iff] at hhead
      exact .anonymous hhead
  | undeclared hselector hundeclared => exact .undeclared (hhead ▸ hselector) hundeclared
  | unused hfits hunused =>
      exact .unused (((hsame _ hfits.selected).fits_iff hhead).mpr hfits) hunused
  | shape hselected hfits =>
      exact .shape (hhead ▸ hselected) (mt ((hsame _ hselected).fits_iff hhead).mp hfits)
  | tick hfits houtside =>
      have hwrite := hsame _ hfits.selected
      have htick : log'.word 0 = log.word 0 := hwrite.words 0 (by decide)
      rw [← htick]
      exact .tick ((hwrite.fits_iff hhead).mpr hfits) (htick ▸ houtside)
  | foreign hfits hreports hother =>
      have hkind := hsame _ hfits.selected
      exact .foreign ((hkind.fits_iff hhead).mpr hfits) (hkind.reports hreports)
        (hkind.market_eq hreports ▸ hother)
  | apply hfits hreports hown =>
      have hkind := hsame _ hfits.selected
      exact .apply ((hkind.fits_iff hhead).mpr hfits) (hkind.reports hreports)
        (hkind.market_eq hreports ▸ hown)

end Influence

/-- Which logs have which of the four outcomes. -/
structure Route.Classified (market : Word) (log : Log) : Prop where
  /-- A log is not handled if it has no topic, if its first topic selects no declared event, or if
  it fits the declaration of an event that no book reacts to. -/
  unhandled : (∃ why, Route.ofLog market log = .unhandled why) ↔
    log.topics = [] ∨
      (∃ selector, log.topics.head? = some selector ∧
        ∀ k : Contract.EventKind, selector ≠ k.topic) ∨
      ∃ k ∈ [Contract.EventKind.setActive, .setFee, .credit, .debit], log.Fits k
  /-- It is malformed if its first topic selects an event whose declaration it does not fit, in the
  number of its topics or for lack of data, or if it is a write whose tick is out of range, whatever
  its market. -/
  malformed : (∃ why, Route.ofLog market log = .malformed why) ↔
    (∃ k : Contract.EventKind, log.topics.head? = some k.topic ∧
      (log.topics.length ≠ k.indexedCount + 1 ∨ log.data.length < 32 * k.wordCount)) ∨
      log.Fits .offerWrite ∧ Tick.Outside (log.word 0).toInt
  /-- It is foreign if it fits the declaration of an event that reports something to a book, and
  names another market. -/
  foreign : Route.ofLog market log = .foreign ↔
    ∃ k e, log.Fits k ∧ log.Reports k e ∧ log.topic 1 ≠ market
  /-- It is applied as an event if it fits, reports that event by the places of its fields, and
  names the market. -/
  apply : ∀ e, Route.ofLog market log = .apply e ↔
    ∃ k, log.Fits k ∧ log.Reports k e ∧ log.topic 1 = market
  /-- Data behind the words of the event, words that no book reads and the high bytes of addresses
  have no influence. -/
  read_only : ∀ log' : Log, log'.topics.head? = log.topics.head? →
    (∀ k : Contract.EventKind, log.topics.head? = some k.topic → log.SameFor k log') →
    Route.ofLog market log' = Route.ofLog market log

/-- **The router accepts exactly the declared events.** For every market and every log, each of the
four outcomes has its condition on the topics and the words of the log, and two logs with the same
first topic that differ only in what no book reads have the same route. -/
theorem Route.ofLog_classified (market : Word) (log : Log) : Route.Classified market log := by
  refine ⟨⟨?_, ?_⟩, ⟨?_, ?_⟩, ⟨?_, ?_⟩, fun e => ⟨?_, ?_⟩, fun log' hhead hsame =>
    routes_iff.mp ((routes_iff.mpr rfl).of_sameFor hhead hsame)⟩
  all_goals simp only [← routes_iff]
  · rintro ⟨why, hroutes⟩
    cases hroutes with
    | anonymous htopics => exact .inl htopics
    | undeclared hselector hundeclared => exact .inr (.inl ⟨_, hselector, hundeclared⟩)
    | unused hfits hunused => exact .inr (.inr ⟨_, hunused, hfits⟩)
  · rintro (htopics | ⟨selector, hselector, hundeclared⟩ | ⟨k, hunused, hfits⟩)
    · exact ⟨_, .anonymous htopics⟩
    · exact ⟨_, .undeclared hselector hundeclared⟩
    · exact ⟨_, .unused hfits hunused⟩
  · rintro ⟨why, hroutes⟩
    cases hroutes with
    | shape hselected hfits =>
        exact .inl ⟨_, hselected, (Log.not_fits_iff hselected).mp hfits⟩
    | tick hfits houtside => exact .inr ⟨hfits, houtside⟩
  · rintro (⟨k, hselected, hmisfit⟩ | ⟨hfits, houtside⟩)
    · exact ⟨_, .shape hselected ((Log.not_fits_iff hselected).mpr hmisfit)⟩
    · exact ⟨_, .tick hfits houtside⟩
  · intro hroutes
    cases hroutes with
    | foreign hfits hreports hother => exact ⟨_, _, hfits, hreports, hother⟩
  · rintro ⟨k, e, hfits, hreports, hother⟩
    exact .foreign hfits hreports hother
  · intro hroutes
    cases hroutes with
    | apply hfits hreports hown => exact ⟨_, hfits, hreports, hown⟩
  · rintro ⟨k, hfits, hreports, hown⟩
    exact .apply hfits hreports hown

/-- A write for market 7, and the same with high bytes in front of its maker and with three bytes
behind its data. For another market it is foreign; without its last byte it is malformed, and so it
is for every market at a tick just out of range. -/
theorem Route.ofLog_classified_write :
    let log (maker : Word) (data : Bytes) : Log :=
      ⟨0, [Contract.EventKind.offerWrite.topic, 7, maker], data, none, none, none, none, false⟩
    let data (tick : Word) : Bytes := [tick, 2, 3, 4, 5].flatMap Word.bytes
    let written : BookEvent := .offerWrite 5 0xaa ⟨1, by decide, by decide⟩ 2 4 3
    let maker : Word := 0xff000000000000000000000000000000000000000000aa
    Route.ofLog 7 (log 0xaa (data 1)) = .apply written ∧
      Route.ofLog 7 (log maker (data 1 ++ [0, 0, 1])) = .apply written ∧
      Route.ofLog 8 (log 0xaa (data 1)) = .foreign ∧
      (∃ why, Route.ofLog 7 (log 0xaa ((data 1).take 159)) = .malformed why) ∧
      ∃ why, Route.ofLog 8 (log 0xaa (data 0x80000000)) = .malformed why := by
  intro log data written maker
  have hfits (maker tick : Word) : (log maker (data tick)).Fits .offerWrite :=
    ⟨rfl, rfl, by simp [log, data, Contract.EventKind.wordCount]⟩
  let clean := log 0xaa (data 1)
  have hreports : clean.Reports .offerWrite written := by
    have hwritten : BookEvent.offerWrite (clean.word 4) (clean.topic 2).address
        ⟨1, by decide, by decide⟩ (clean.word 1) (clean.word 3).clamp64 (clean.word 2).clamp64 =
          written := by decide +kernel
    rw [← hwritten]
    exact .offerWrite (by decide +kernel)
  have hsame : ∀ k : Contract.EventKind, clean.topics.head? = some k.topic →
      clean.SameFor k (log maker (data 1 ++ [0, 0, 1])) := by
    intro k hk
    have hkind : some Contract.EventKind.offerWrite = some k := by
      rw [← Contract.EventKind.ofTopic?_topic, ← Contract.EventKind.ofTopic?_topic k,
        Option.some.inj hk]
    obtain rfl := Option.some.inj hkind
    refine ⟨rfl, fun i hi => ?_, by decide +kernel, by decide +kernel, by decide +kernel⟩
    match i with
    | 0 | 1 => rfl
    | 2 => exact absurd hi (by decide)
    | i + 3 => rfl
  have hclean := Route.ofLog_classified 7 clean
  have happlied : Route.ofLog 7 clean = .apply written :=
    (hclean.apply written).mpr ⟨_, hfits 0xaa 1, hreports, rfl⟩
  have hother := Route.ofLog_classified 8 clean
  have hcut := Route.ofLog_classified 7 (log 0xaa ((data 1).take 159))
  have htick := Route.ofLog_classified 8 (log 0xaa (data 0x80000000))
  refine ⟨happlied,
    (hclean.read_only (log maker (data 1 ++ [0, 0, 1])) rfl hsame).trans happlied,
    hother.foreign.mpr ⟨_, _, hfits 0xaa 1, hreports, by decide⟩,
    hcut.malformed.mpr (.inl ⟨.offerWrite, rfl, .inr (by decide +kernel)⟩),
    htick.malformed.mpr (.inr ⟨hfits 0xaa 0x80000000, .inr (by decide +kernel)⟩)⟩

end OfferBook
