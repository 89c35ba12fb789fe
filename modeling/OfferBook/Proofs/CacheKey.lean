import OfferBook.Market

/-!
# Cache keys

A cache key is a text put together from the key of an exchange, the two addresses of a market and
its tick spacing, with underscores between them, and lowered as a whole. Nothing is escaped, and
the key of an exchange may be any text, with underscores and with letters whose lower-case form
depends on their neighbours. Still the parts can be read off a key from its end. The spacing has
no underscore in it, and the addresses have one length, so whatever is left is the exchange.

That lowering the whole is lowering the parts takes an argument, since a capital sigma looks at
the text before and after it. But an underscore neither has a case nor is passed over by that
look, so nothing before one is affected by what comes after it (`lowerFrom_append_underscore`).
The rest of a key is in ASCII, which looks at no neighbour at all.

The letters of an address may be written in any case (`Spelled`); the checksum is one way to write
them. Nothing of it is left in a key, and nothing of it is looked at when an address is read.

## Main results

* `toList_cacheKey`: the parts of a key.
* `cacheKey_of_lowercase_eq`, `eq_of_cacheKey_eq`: what a key depends on and what it determines.
* `cacheKey_eq_iff`: cache keys do not collide.
-/

namespace OfferBook

namespace Text

/-! ## Lowering in parts -/

/-- The look at a side passes over what ignores case and stops at the next character. -/
theorem casedNext_cons (c : Char) (side : List Char) :
    casedNext (c :: side) =
      if inRanges c.toNat caseIgnorableRanges then casedNext side
      else inRanges c.toNat casedRanges := by
  by_cases hc : inRanges c.toNat caseIgnorableRanges = true
  · rw [if_pos hc, casedNext, List.dropWhile_cons, if_pos hc]
    rfl
  · rw [if_neg hc, casedNext, List.dropWhile_cons, if_neg hc]

/-- The look stops at an underscore and finds no case there. -/
theorem casedNext_append_underscore (side rest : List Char) :
    casedNext (side ++ '_' :: rest) = casedNext side := by
  induction side with
  | nil =>
      have hseen : inRanges '_'.toNat caseIgnorableRanges = false := by decide +kernel
      have hcaseless : inRanges '_'.toNat casedRanges = false := by decide +kernel
      rw [List.nil_append, casedNext_cons, hseen, hcaseless]
      rfl
  | cons c side ih => rw [List.cons_append, casedNext_cons, casedNext_cons, ih]

theorem lowerChar_append_underscore (before : List Char) (c : Char) (after rest : List Char) :
    lowerChar before c (after ++ '_' :: rest) = lowerChar before c after := by
  rw [lowerChar, lowerChar, casedNext_append_underscore]

theorem lowerFrom_append_underscore (before text rest : List Char) :
    lowerFrom before (text ++ '_' :: rest) =
      lowerFrom before text ++ lowerFrom (text.reverse ++ before) ('_' :: rest) := by
  induction text generalizing before with
  | nil => rfl
  | cons c text ih =>
      rw [List.cons_append, lowerFrom, lowerFrom, lowerChar_append_underscore, ih,
        List.reverse_cons, List.append_assoc, List.append_assoc]
      rfl

/-- What holds of the first code points holds of every character in ASCII. -/
theorem of_ascii {P : Char → Prop} (h : ∀ n : Fin 128, P (Char.ofNat n)) {c : Char}
    (hc : c.toNat < 128) : P c := by
  have hcopy : Char.ofNat c.toNat = c := Char.ofNat_toNat c
  exact hcopy ▸ h ⟨c.toNat, hc⟩

/-- A character in ASCII is lowered on its own. -/
theorem lowerChar_ascii {c : Char} (hc : c.toNat < 128) (before after : List Char) :
    lowerChar before c after = [c.toLower] := by
  have halone : lowerChar [] c [] = [c.toLower] :=
    of_ascii (P := fun c => lowerChar [] c [] = [c.toLower]) (by decide +kernel) hc
  have hsigma : c ≠ '\u03a3' := by
    rintro rfl
    exact absurd hc (by decide)
  rw [← halone, lowerChar, lowerChar, if_neg hsigma, if_neg hsigma]

/-- What is in ASCII when it is lowered was so before. -/
theorem ascii_of_toLower {c : Char} (h : c.toLower.toNat < 128) : c.toNat < 128 := by
  unfold Char.toLower at h
  split at h
  next hupper =>
    have hle : c.toNat ≤ 'Z'.toNat := hupper.2
    exact Nat.lt_of_le_of_lt hle (by decide)
  next => exact h

theorem lowerFrom_ascii {text : List Char} (h : ∀ c ∈ text, c.toNat < 128) (before : List Char) :
    lowerFrom before text = text.map Char.toLower := by
  induction text generalizing before with
  | nil => rfl
  | cons c text ih =>
      obtain ⟨hc, htext⟩ := List.forall_mem_cons.mp h
      rw [lowerFrom, lowerChar_ascii hc, ih htext]
      rfl

end Text

/-! ## Digits -/

/-- A number is written in digits. -/
theorem isDigit_of_mem_repr {n : Nat} {c : Char} (h : c ∈ n.repr.toList) : c.isDigit = true := by
  rw [Nat.repr_eq_ofList_toDigits, String.toList_ofList] at h
  exact Nat.isDigit_of_mem_toDigits (by decide) (by decide) h

theorem hexValue?_hexDigit {n : Nat} (h : n < 16) : hexValue? (hexDigit n) = some n := by
  have hall : ∀ n : Fin 16, hexValue? (hexDigit n) = some n.val := by decide
  exact hall ⟨n, h⟩

theorem mem_nibbles_lt {bs : Bytes} {n : Nat} (h : n ∈ nibbles bs) : n < 16 := by
  obtain ⟨b, -, hn⟩ := List.mem_flatMap.mp h
  have hb : b.toNat < 256 := b.toNat_lt
  simp only [List.mem_cons, List.not_mem_nil, or_false] at hn
  omega

@[simp] theorem length_nibbles (bs : Bytes) : (nibbles bs).length = 2 * bs.length := by
  induction bs with
  | nil => rfl
  | cons b bs ih =>
      simp only [nibbles, List.flatMap_cons, List.length_append, List.length_cons] at ih ⊢
      rw [ih]
      simp
      omega

/-- Bytes are read back from their digits. -/
theorem ofHexDigits?_hexDigits (bs : Bytes) : ofHexDigits? (hexDigits bs) = some bs := by
  induction bs with
  | nil => rfl
  | cons b bs ih =>
      have hb : b.toNat < 256 := b.toNat_lt
      have hhigh := hexValue?_hexDigit (by omega : b.toNat / 16 < 16)
      have hlow := hexValue?_hexDigit (by omega : b.toNat % 16 < 16)
      have hbyte : UInt8.ofNat (16 * (b.toNat / 16) + b.toNat % 16) = b := by
        rw [Nat.div_add_mod, UInt8.ofNat_toNat]
      show ofHexDigits? (hexDigit (b.toNat / 16) :: hexDigit (b.toNat % 16) :: hexDigits bs) = _
      rw [ofHexDigits?, hhigh, hlow, ih]
      exact congrArg (fun b => some (b :: bs)) hbyte

/-- Digits are read the same in either case. -/
theorem ofHexDigits?_toLower {digits : List Char} (h : ∀ c ∈ digits, c.toNat < 128) :
    ofHexDigits? (digits.map Char.toLower) = ofHexDigits? digits := by
  have hdigit {c : Char} (hc : c.toNat < 128) : hexValue? c.toLower = hexValue? c :=
    Text.of_ascii (P := fun c => hexValue? c.toLower = hexValue? c) (by decide +kernel) hc
  fun_induction ofHexDigits? digits with
  | case1 => rfl
  | case2 high low rest ih =>
      obtain ⟨hhigh, hlow, hrest⟩ :
          high.toNat < 128 ∧ low.toNat < 128 ∧ ∀ c ∈ rest, c.toNat < 128 := by simpa using h
      simp only [List.map_cons, ofHexDigits?, hdigit hhigh, hdigit hlow, ih hrest]
  | case3 c => rfl

/-! ## Addresses -/

namespace Keccak

@[simp] theorem length_digest (message : Bytes) : (digest message).length = 32 := by
  have hlanes : ∀ lanes : List UInt64, (lanes.flatMap laneBytes).length = 8 * lanes.length := by
    intro lanes
    induction lanes with
    | nil => rfl
    | cons lane lanes ih => simp [laneBytes, ih]; omega
  simp [digest, hlanes]

end Keccak

namespace Address

theorem length_digits (a : Address) : a.digits.length = 40 := by
  simp [digits, hexDigits]

/-- A checksummed digit is in ASCII and is lowered to the digit. -/
private theorem checkedDigit_hexDigit {n : Nat} (h : n < 16) (hashDigit : Nat) :
    (checkedDigit (hexDigit n) hashDigit).toNat < 128 ∧
      (checkedDigit (hexDigit n) hashDigit).toLower = hexDigit n := by
  have hplain : ∀ n : Fin 16,
      (hexDigit n).toNat < 128 ∧ (hexDigit n).toLower = hexDigit n := by decide
  have hupper : ∀ n : Fin 16,
      (hexDigit n).toUpper.toNat < 128 ∧ (hexDigit n).toUpper.toLower = hexDigit n := by decide
  unfold checkedDigit
  split
  · exact hupper ⟨n, h⟩
  · exact hplain ⟨n, h⟩

private theorem zipWith_checkedDigit {ns hash : List Nat} (hns : ∀ n ∈ ns, n < 16)
    (hlength : ns.length ≤ hash.length) :
    (∀ c ∈ List.zipWith checkedDigit (ns.map hexDigit) hash, c.toNat < 128) ∧
      (List.zipWith checkedDigit (ns.map hexDigit) hash).map Char.toLower = ns.map hexDigit := by
  induction ns generalizing hash with
  | nil => simp
  | cons n ns ih =>
      cases hash with
      | nil => simp at hlength
      | cons h hash =>
          obtain ⟨hn, hns⟩ := List.forall_mem_cons.mp hns
          obtain ⟨hascii, hlower⟩ := checkedDigit_hexDigit hn h
          obtain ⟨hasciis, hlowers⟩ := ih hns (Nat.le_of_succ_le_succ hlength)
          refine ⟨List.forall_mem_cons.mpr ⟨hascii, hasciis⟩, ?_⟩
          rw [List.map_cons, List.zipWith_cons_cons, List.map_cons, hlower, hlowers]

/-- The checksum is gone from the lowered text of an address. -/
theorem text_lowered (a : Address) : (∀ c ∈ a.text.toList, c.toNat < 128) ∧
    a.text.toList.map Char.toLower = a.plainText.toList := by
  have hlength : (nibbles (bigEndian 20 a.toNat)).length ≤
      (nibbles (Keccak.digest (String.ofList a.digits).toUTF8.toList)).length := by simp
  obtain ⟨hascii, hlower⟩ := zipWith_checkedDigit (fun n hn => mem_nibbles_lt hn) hlength
  have htext : a.text.toList = '0' :: 'x' :: List.zipWith checkedDigit a.digits
      (nibbles (Keccak.digest (String.ofList a.digits).toUTF8.toList)) := by
    simp [text]
  have hplain : a.plainText.toList = '0' :: 'x' :: a.digits := by simp [plainText]
  rw [htext, hplain]
  refine ⟨?_, ?_⟩
  · exact List.forall_mem_cons.mpr ⟨by decide, List.forall_mem_cons.mpr ⟨by decide, hascii⟩⟩
  · rw [List.map_cons, List.map_cons]
    exact congrArg (fun l => '0' :: 'x' :: l) hlower

theorem length_plainText (a : Address) : a.plainText.toList.length = 42 := by
  simp [plainText, length_digits]

/-- The text writes the address, with its letters in any case. -/
def Spelled (a : Address) (text : String) : Prop :=
  text.toList.map Char.toLower = a.plainText.toList

instance (a : Address) (text : String) : Decidable (a.Spelled text) :=
  inferInstanceAs (Decidable (_ = _))

theorem spelled_text (a : Address) : a.Spelled a.text := (text_lowered a).2

theorem Spelled.ascii {a : Address} {text : String} (h : a.Spelled text) :
    ∀ c ∈ text.toList, c.toNat < 128 := by
  intro c hc
  have hlower : c.toLower ∈ a.plainText.toList := h ▸ List.mem_map_of_mem hc
  rw [← (text_lowered a).2] at hlower
  obtain ⟨c', hc', heq⟩ := List.mem_map.mp hlower
  have hascii : c'.toLower.toNat < 128 :=
    Text.of_ascii (P := fun c => c.toLower.toNat < 128) (by decide) ((text_lowered a).1 c' hc')
  exact Text.ascii_of_toLower (heq ▸ hascii)

/-- An address is read from its text, whatever the case of the letters. -/
theorem Spelled.ofText? {a : Address} {text : String} (h : a.Spelled text) :
    ofText? text = some a := by
  have hascii := h.ascii
  have hplain : text.toList.map Char.toLower = '0' :: 'x' :: a.digits := by
    rw [h]
    simp [plainText]
  obtain ⟨zero, rest, htext, hzero, hrest⟩ := List.map_eq_cons_iff.mp hplain
  obtain ⟨mark, cs, rfl, hmark, hdigits⟩ := List.map_eq_cons_iff.mp hrest
  rw [htext] at hascii
  obtain ⟨hz, hm, hcs⟩ : zero.toNat < 128 ∧ mark.toNat < 128 ∧ ∀ c ∈ cs, c.toNat < 128 := by
    simpa using hascii
  have hzero : zero = '0' :=
    Text.of_ascii (P := fun c => c.toLower = '0' → c = '0') (by decide) hz hzero
  have hmark : mark = 'x' ∨ mark = 'X' :=
    Text.of_ascii (P := fun c => c.toLower = 'x' → c = 'x' ∨ c = 'X') (by decide) hm hmark
  have hdrop : dropHexMark text.toList = cs := by
    rw [htext, hzero]
    rcases hmark with rfl | rfl <;> rfl
  have hlength : cs.length = 40 := by
    rw [← List.length_map Char.toLower, hdigits, length_digits]
  have hbytes : ofHexDigits? cs = some (bigEndian 20 a.toNat) := by
    rw [← ofHexDigits?_toLower hcs, hdigits, digits, ofHexDigits?_hexDigits]
  have hnumber : ofBigEndian (bigEndian 20 a.toNat) = a.toNat := by
    rw [ofBigEndian_bigEndian]
    exact Nat.mod_eq_of_lt a.isLt
  simp only [Address.ofText?, hdrop, hlength, if_true, hbytes, Option.map_some, hnumber,
    BitVec.ofNat_toNat, BitVec.setWidth_eq]

/-- The digits of an address tell it apart. -/
theorem eq_of_plainText {a b : Address} (h : a.plainText.toList = b.plainText.toList) : a = b := by
  have hdigits : a.digits = b.digits := by simpa [plainText] using h
  have hbytes : some (bigEndian 20 a.toNat) = some (bigEndian 20 b.toNat) := by
    rw [← ofHexDigits?_hexDigits, ← ofHexDigits?_hexDigits]
    exact congrArg ofHexDigits? hdigits
  have hnumber := congrArg ofBigEndian (Option.some.inj hbytes)
  rw [ofBigEndian_bigEndian, ofBigEndian_bigEndian] at hnumber
  have hspan : byteSpan 20 = 2 ^ 160 := by decide
  rw [hspan, Nat.mod_eq_of_lt a.isLt, Nat.mod_eq_of_lt b.isLt] at hnumber
  exact BitVec.eq_of_toNat_eq hnumber

end Address

/-! ## The parts of a key -/

namespace Market

variable {m m' : Market} {dex dex' : String}

/-- What follows the exchange in a cache key. -/
def keyTail (m : Market) : List Char :=
  m.outbound.plainText.toList ++
    '_' :: (m.inbound.plainText.toList ++ '_' :: m.spacing.toNat.repr.toList)

/-- The digits of a number have no case, and no underscore is among them. -/
private theorem repr_plain (n : Nat) :
    ∀ c ∈ n.repr.toList, c.toNat < 128 ∧ c.toLower = c ∧ c ≠ '_' := by
  intro c hc
  have hdigit : c.isDigit = true := isDigit_of_mem_repr hc
  have hascii : c.toNat < 128 := by
    have hle : c.val ≤ '9'.val := (by simpa [Char.isDigit] using hdigit : _ ∧ _).2
    have hnine : c.toNat ≤ 57 := hle
    omega
  have hplain : c.isDigit = true → c.toLower = c ∧ c ≠ '_' :=
    Text.of_ascii (P := fun c => c.isDigit = true → c.toLower = c ∧ c ≠ '_') (by decide) hascii
  exact ⟨hascii, hplain hdigit⟩

private theorem eq_of_repr {n n' : Nat} (h : n.repr.toList = n'.repr.toList) : n = n' := by
  rw [Nat.repr_eq_ofList_toDigits, Nat.repr_eq_ofList_toDigits, String.toList_ofList,
    String.toList_ofList] at h
  have hread := congrArg (fun digits => Nat.ofDigitChars 10 digits 0) h
  simpa only [Nat.ofDigitChars_ten_toDigits] using hread

/-- A key may be written with any spelling of the addresses. -/
theorem toList_lowercase_of_spelled {outbound inbound : String}
    (houtbound : m.outbound.Spelled outbound) (hinbound : m.inbound.Spelled inbound) :
    (Text.lowercase s!"{dex}_{outbound}_{inbound}_{m.spacing.toNat}").toList =
      (Text.lowercase dex).toList ++ '_' :: m.keyTail := by
  have hplain := repr_plain m.spacing.toNat
  have hwhole : (Text.lowercase s!"{dex}_{outbound}_{inbound}_{m.spacing.toNat}").toList =
      Text.lowerFrom [] (dex.toList ++ '_' :: (outbound.toList ++
        '_' :: (inbound.toList ++ '_' :: m.spacing.toNat.repr.toList))) := by
    simp [Text.lowercase, toString]
  have htail : ∀ c ∈ '_' :: (outbound.toList ++
      '_' :: (inbound.toList ++ '_' :: m.spacing.toNat.repr.toList)), c.toNat < 128 := by
    simp only [List.forall_mem_cons, List.forall_mem_append]
    exact ⟨by decide, houtbound.ascii, by decide, hinbound.ascii, by decide,
      fun c hc => (hplain c hc).1⟩
  have hspacing : m.spacing.toNat.repr.toList.map Char.toLower = m.spacing.toNat.repr.toList :=
    (List.map_congr_left fun c hc => (hplain c hc).2.1).trans (List.map_id _)
  have hexchange : (Text.lowercase dex).toList = Text.lowerFrom [] dex.toList := by
    simp [Text.lowercase]
  have houtLower : outbound.toList.map Char.toLower = m.outbound.plainText.toList := houtbound
  have hinLower : inbound.toList.map Char.toLower = m.inbound.plainText.toList := hinbound
  rw [hwhole, Text.lowerFrom_append_underscore, Text.lowerFrom_ascii htail, hexchange]
  simp only [List.map_cons, List.map_append, houtLower, hinLower, hspacing]
  rfl

/-- **The parts of a key.** A cache key is the exchange in lower case, and behind it the market in
lower case. -/
theorem toList_cacheKey (m : Market) (dex : String) :
    (m.cacheKey dex).toList = (Text.lowercase dex).toList ++ '_' :: m.keyTail :=
  toList_lowercase_of_spelled (Address.spelled_text _) (Address.spelled_text _)

/-- A key depends on no more of the exchange than its lower case. -/
theorem cacheKey_of_lowercase_eq (h : Text.lowercase dex = Text.lowercase dex') (m : Market) :
    m.cacheKey dex = m.cacheKey dex' := by
  apply String.toList_inj.mp
  rw [toList_cacheKey, toList_cacheKey, h]

/-- What follows the last underscore can be told from what comes before it. -/
private theorem eq_of_append_underscore {front front' last last' : List Char}
    (hlast : '_' ∉ last) (hlast' : '_' ∉ last')
    (h : front ++ '_' :: last = front' ++ '_' :: last') : front = front' ∧ last = last' := by
  -- Otherwise the longer of the two fronts has an underscore that stands in the other's rest.
  rcases List.append_eq_append_iff.mp h with ⟨between, hfront, hrest⟩ | ⟨between, hfront, hrest⟩
  all_goals
    cases between with
    | nil => simp_all
    | cons c between =>
        obtain ⟨-, htail⟩ := List.cons.inj hrest
        simp_all

/-- **A key tells exchange and market.** The exchange up to the case of its letters, that is. -/
theorem eq_of_cacheKey_eq (h : m.cacheKey dex = m'.cacheKey dex') :
    Text.lowercase dex = Text.lowercase dex' ∧ m = m' := by
  have hkey := congrArg String.toList h
  have hgroup : ∀ exchange outbound inbound spacing : List Char,
      exchange ++ '_' :: (outbound ++ '_' :: (inbound ++ '_' :: spacing)) =
        (exchange ++ '_' :: outbound ++ '_' :: inbound) ++ '_' :: spacing := by simp
  rw [toList_cacheKey, toList_cacheKey, keyTail, keyTail, hgroup, hgroup] at hkey
  have hdigits : ∀ n : Nat, '_' ∉ n.repr.toList := fun n hmem => (repr_plain n '_' hmem).2.2 rfl
  obtain ⟨hrest, hspacing⟩ := eq_of_append_underscore (hdigits _) (hdigits _) hkey
  obtain ⟨hrest, hinbound⟩ := List.append_inj' hrest (by simp [Address.length_plainText])
  obtain ⟨hexchange, houtbound⟩ := List.append_inj' hrest (by simp [Address.length_plainText])
  refine ⟨String.toList_inj.mp hexchange, ?_⟩
  have houtbound := Address.eq_of_plainText (List.cons.inj houtbound).2
  have hinbound := Address.eq_of_plainText (List.cons.inj hinbound).2
  have hspacing := UInt64.toNat_inj.mp (eq_of_repr hspacing)
  obtain ⟨outbound, inbound, spacing⟩ := m
  exact (mk.injEq ..).mpr ⟨houtbound, hinbound, hspacing⟩

/-! ## No collisions -/

/-- **Cache keys do not collide.** Whatever texts the exchanges have for keys, two cache keys are
the same exactly if these are the same in lower case and the markets are the same. So the two sides
of a pair never share a key, and neither do two tick spacings. The case of the letters in an address
never matters: every spelling of it is read as that address and leads to the same key. -/
theorem cacheKey_eq_iff (m m' : Market) (dex dex' : String) :
    (m.cacheKey dex = m'.cacheKey dex' ↔ Text.lowercase dex = Text.lowercase dex' ∧ m = m') ∧
      (∀ source destination spacing spacing', source ≠ destination →
        (ofTrade source destination spacing).cacheKey dex ≠
          (ofTrade destination source spacing').cacheKey dex') ∧
      (∀ source destination spacing spacing', spacing ≠ spacing' →
        (ofTrade source destination spacing).cacheKey dex ≠
          (ofTrade source destination spacing').cacheKey dex') ∧
      ∀ outbound inbound, m.outbound.Spelled outbound → m.inbound.Spelled inbound →
        Address.ofText? outbound = some m.outbound ∧ Address.ofText? inbound = some m.inbound ∧
          Text.lowercase s!"{dex}_{outbound}_{inbound}_{m.spacing.toNat}" = m.cacheKey dex := by
  refine ⟨⟨eq_of_cacheKey_eq, ?_⟩, fun source destination spacing spacing' hne h => ?_,
    fun source destination spacing spacing' hne h => ?_, fun outbound inbound hout hin => ?_⟩
  · rintro ⟨hdex, rfl⟩
    exact cacheKey_of_lowercase_eq hdex m
  · have hsides : destination = source := congrArg Market.outbound (eq_of_cacheKey_eq h).2
    exact hne hsides.symm
  · exact hne (congrArg Market.spacing (eq_of_cacheKey_eq h).2)
  · refine ⟨hout.ofText?, hin.ofText?, String.toList_inj.mp ?_⟩
    rw [toList_lowercase_of_spelled hout hin, toList_cacheKey]

/-- The key of an exchange ends in a capital sigma, so that its lower case depends on what comes
after it, and has an underscore in it. Its lower case is one with a final sigma. -/
theorem cacheKey_eq_iff_final_sigma :
    let m : Market := ⟨0xaa, 0xbb, 1⟩
    let capital := "0X00000000000000000000000000000000000000AA"
    let small := "0x00000000000000000000000000000000000000bb"
    m.cacheKey "1_\u039f\u0394\u039f\u03a3" = m.cacheKey "1_\u03bf\u03b4\u03bf\u03c2" ∧
      m.cacheKey "1_\u039f\u0394\u039f\u03a3" ≠ m.cacheKey "1_\u03bf\u03b4\u03bf\u03c3" ∧
      (ofTrade 0xbb 0xaa 1).cacheKey "a" ≠ (ofTrade 0xaa 0xbb 1).cacheKey "a_a" ∧
      (ofTrade 0xbb 0xaa 1).cacheKey "a" ≠ (ofTrade 0xbb 0xaa 11).cacheKey "a" ∧
      Text.lowercase s!"A_{capital}_{small}_{m.spacing.toNat}" = m.cacheKey "A" := by
  intro m capital small
  have hcapital : m.outbound.Spelled capital := by decide
  have hsmall : m.inbound.Spelled small := by decide
  obtain ⟨-, hsides, -, -⟩ := cacheKey_eq_iff m m "a" "a_a"
  obtain ⟨-, -, hspacings, -⟩ := cacheKey_eq_iff m m "a" "a"
  obtain ⟨-, -, -, hspelled⟩ := cacheKey_eq_iff m m "A" "A"
  refine ⟨?_, ?_, hsides _ _ _ _ (by decide), hspacings _ _ _ _ (by decide),
    (hspelled capital small hcapital hsmall).2.2⟩
  · exact (cacheKey_eq_iff m m _ _).1.mpr ⟨by decide +kernel, rfl⟩
  · intro h
    exact absurd ((cacheKey_eq_iff m m _ _).1.mp h).1 (by decide +kernel)

end Market

end OfferBook
