import VolumeStore.Proofs.Client.Refusals

/-!
# Replies of foreign stores

A client takes the text of a reply apart, whoever wrote it. It finds the token behind the blanks at
the start of the text, and it cuts the message off by the number of bytes of the token, from the
start of the text on. The two agree exactly when the token stands at the start. Behind blanks it is
found all the same, but a part of it stays in front of the message, or the cut divides a blank and
there is no message.
-/

namespace VolumeStore

namespace Text

variable {cs blanks word rest : List Char}

/-! ## The first word -/

/-- The word is the first one of the text: in front of it are blanks, and behind it is a blank or
nothing. -/
structure FirstWord (cs blanks word rest : List Char) : Prop where
  told : cs = blanks ++ (word ++ rest)
  blank : ∀ c ∈ blanks, isBlank c = true
  telling : word ≠ []
  plain : ∀ c ∈ word, isBlank c = false
  divided : ∀ c ∈ rest.head?, isBlank c = true

theorem FirstWord.head?_words (h : FirstWord cs blanks word rest) :
    (words cs).head? = some word := by
  rw [h.told, words_blanks_append h.blank]
  cases rest with
  | nil => rw [List.append_nil, words_singleton h.telling h.plain, List.head?_cons]
  | cons c rest => rw [words_append_cons h.telling h.plain (h.divided c rfl), List.head?_cons]

theorem exists_firstWord (h : words cs ≠ []) :
    ∃ blanks word rest, FirstWord cs blanks word rest := by
  have hfront : cs = cs.takeWhile isBlank ++ cs.dropWhile isBlank :=
    List.takeWhile_append_dropWhile.symm
  have hblanks : ∀ c ∈ cs.takeWhile isBlank, isBlank c = true :=
    fun c hc => List.mem_takeWhile_imp hc
  cases hback : cs.dropWhile isBlank with
  | nil =>
    -- A text of blanks has no words.
    rw [hback, List.append_nil] at hfront
    rw [hfront, ← List.append_nil (cs.takeWhile isBlank), words_blanks_append hblanks] at h
    exact absurd rfl h
  | cons first back =>
    have hfirst : isBlank first = false := by
      have := List.head?_dropWhile_not isBlank cs
      rw [hback] at this
      simpa using this
    refine ⟨cs.takeWhile isBlank, (first :: back).takeWhile (!isBlank ·),
      (first :: back).dropWhile (!isBlank ·), ?_, hblanks, ?_, fun c hc => ?_, fun c hc => ?_⟩
    · rw [List.takeWhile_append_dropWhile, ← hback]
      exact hfront
    · rw [List.takeWhile_cons_of_pos (by simp [hfirst])]
      exact List.cons_ne_nil _ _
    · simpa using List.mem_takeWhile_imp hc
    · have := List.head?_dropWhile_not (!isBlank ·) (first :: back)
      rw [Option.mem_def.1 hc] at this
      simpa using this

theorem head?_words_eq_some_iff :
    (words cs).head? = some word ↔ ∃ blanks rest, FirstWord cs blanks word rest := by
  constructor
  · intro h
    have hne : words cs ≠ [] := by
      intro hnil
      rw [hnil] at h
      cases h
    obtain ⟨blanks, first, rest, hfirst⟩ := exists_firstWord hne
    rw [hfirst.head?_words] at h
    exact ⟨blanks, rest, Option.some.inj h ▸ hfirst⟩
  · rintro ⟨blanks, rest, h⟩
    exact h.head?_words

/-! ## Cuts -/

/-- A cut behind `n` bytes would divide a character of the text. -/
def Divides (n : Nat) (cs : List Char) : Prop :=
  ∃ front c back, cs = front ++ c :: back ∧ byteLength front < n ∧
    n < byteLength front + c.utf8Size

theorem divides_append_iff {n : Nat} {cs ds : List Char} :
    Divides n (cs ++ ds) ↔ Divides n cs ∨ Divides (n - byteLength cs) ds := by
  constructor
  · rintro ⟨front, c, back, heq, hlow, hhigh⟩
    obtain ⟨between, rfl, hds⟩ | ⟨between, rfl, hback⟩ := List.append_eq_append_iff.1 heq
    · rw [byteLength_append] at hlow hhigh
      exact .inr ⟨between, c, back, hds, by omega, by omega⟩
    · cases between with
      | nil =>
        -- The divided character is the first of the second text.
        rw [List.append_nil]
        exact .inr ⟨[], c, back, hback.symm, by rw [byteLength_nil]; omega,
          by rw [byteLength_nil]; omega⟩
      | cons d between =>
        obtain ⟨rfl, rfl⟩ := List.cons.inj hback
        exact .inl ⟨front, c, between, rfl, hlow, hhigh⟩
  · rintro (⟨front, c, back, rfl, hlow, hhigh⟩ | ⟨front, c, back, rfl, hlow, hhigh⟩)
    · exact ⟨front, c, back ++ ds, by simp, hlow, hhigh⟩
    · refine ⟨cs ++ front, c, back, by simp, ?_, ?_⟩ <;> rw [byteLength_append] <;> omega

theorem not_divides_of_utf8Size {n : Nat} (h : ∀ c ∈ cs, c.utf8Size = 1) : ¬ Divides n cs := by
  rintro ⟨front, c, back, rfl, hlow, hhigh⟩
  rw [h c (by simp)] at hhigh
  omega

theorem not_divides_zero : ¬ Divides 0 cs := by
  rintro ⟨front, c, back, -, hlow, -⟩
  exact Nat.not_lt_zero _ hlow

theorem dropBytes?_eq_none_iff {n : Nat} :
    dropBytes? n cs = none ↔ byteLength cs < n ∨ Divides n cs := by
  fun_induction dropBytes? n cs with
  | case1 cs => simp [not_divides_zero]
  | case2 n => simp
  | case3 n c cs hc ih =>
    -- The first character is left out as a whole, so a divided one stands behind it.
    have hfirst : ¬ Divides (n + 1) [c] := by
      rintro ⟨front, d, back, heq, hlow, hhigh⟩
      obtain ⟨rfl, heq⟩ | ⟨_, -, hnil⟩ := List.cons_eq_append_iff.1 heq
      · obtain ⟨rfl, -⟩ := List.cons.inj heq
        rw [byteLength_nil] at hhigh
        omega
      · exact absurd hnil (by simp)
    have hrest : Divides (n + 1) ([c] ++ cs) ↔
        Divides (n + 1) [c] ∨ Divides (n + 1 - byteLength [c]) cs := divides_append_iff
    rw [List.singleton_append, byteLength_cons, byteLength_nil, Nat.add_zero] at hrest
    rw [ih, hrest, byteLength_cons]
    simp only [hfirst, false_or]
    refine or_congr_left ?_
    omega
  | case4 n c cs hc =>
    simp only [true_iff]
    exact .inr ⟨[], c, cs, rfl, by simp, by simpa using Nat.lt_of_not_le hc⟩

theorem dropBlanks_blanks_append (hblanks : ∀ c ∈ blanks, isBlank c = true) (cs : List Char) :
    dropBlanks (blanks ++ cs) = dropBlanks cs :=
  List.dropWhile_append_of_pos hblanks

theorem dropBlanks_word_append (hne : word ≠ []) (hword : ∀ c ∈ word, isBlank c = false)
    (rest : List Char) : dropBlanks (word ++ rest) = word ++ rest := by
  obtain ⟨c, cs, rfl⟩ := List.exists_cons_of_ne_nil hne
  exact List.dropWhile_cons_of_neg (by simp [hword c List.mem_cons_self])

end Text

namespace Errno

theorem utf8Size_of_mem_token (errno : Errno) : ∀ c ∈ errno.token.toList, c.utf8Size = 1 := by
  have hsmall : errno.token.toList.all (fun c => c.utf8Size == 1) = true := by
    cases errno <;> decide
  intro c hc
  simpa using List.all_eq_true.1 hsmall c hc

end Errno

namespace Reply

open Text (FirstWord Divides byteLength dropBlanks)

variable {r : Reply} {errno : Errno} {blanks rest : List Char} {message : String}

theorem errno?_eq_some_iff : r.errno? = some errno ↔
    r.isPositive = false ∧
      ∃ blanks rest, FirstWord r.text.toList blanks errno.token.toList rest := by
  rw [← Text.head?_words_eq_some_iff]
  unfold errno?
  cases hpositive : r.isPositive with
  | true => simp
  | false =>
    rw [if_neg Bool.false_ne_true, Option.bind_eq_some_iff]
    simp only [Errno.ofToken?_eq_some_iff, true_and]
    constructor
    · rintro ⟨word, hword, htoken⟩
      rw [hword, ← htoken, String.toList_ofList]
    · intro hword
      exact ⟨_, hword, String.ofList_toList⟩

theorem message?_of_errno? (h : r.errno? = some errno) : r.message? =
    (Text.dropBytes? (byteLength errno.token.toList) r.text.toList).map fun rest =>
      String.ofList (dropBlanks rest) := by
  rw [message?, h]

theorem message?_of_start (h : r.errno? = some errno)
    (hword : FirstWord r.text.toList [] errno.token.toList rest) :
    r.message? = some (String.ofList (dropBlanks rest)) := by
  have hcut : Text.dropBytes? (byteLength errno.token.toList) r.text.toList = some rest :=
    Text.dropBytes?_eq_some_iff.2 ⟨_, hword.told, rfl⟩
  rw [message?_of_errno? h, hcut, Option.map_some]

theorem message?_eq_none_iff (h : r.errno? = some errno)
    (hword : FirstWord r.text.toList blanks errno.token.toList rest) :
    r.message? = none ↔ Divides (byteLength errno.token.toList) blanks := by
  have hlong : ¬ byteLength r.text.toList < byteLength errno.token.toList := by
    rw [hword.told, Text.byteLength_append, Text.byteLength_append]
    omega
  have htoken : ¬ Divides (byteLength errno.token.toList - byteLength blanks)
      (errno.token.toList ++ rest) := by
    rw [Text.divides_append_iff, Nat.sub_eq_zero_of_le (Nat.sub_le _ _)]
    rintro (hdivides | hdivides)
    · exact Text.not_divides_of_utf8Size errno.utf8Size_of_mem_token hdivides
    · exact Text.not_divides_zero hdivides
  rw [message?_of_errno? h, Option.map_eq_none_iff, Text.dropBytes?_eq_none_iff, hword.told,
    Text.divides_append_iff, ← hword.told]
  simp only [hlong, htoken, false_or, or_false]

theorem exists_append_of_message? (h : r.errno? = some errno)
    (hword : FirstWord r.text.toList blanks errno.token.toList rest) (hne : blanks ≠ [])
    (hmessage : r.message? = some message) :
    ∃ front back, errno.token.toList = front ++ back ∧ back ≠ [] ∧
      message.toList = back ++ rest := by
  rw [message?_of_errno? h, Option.map_eq_some_iff] at hmessage
  obtain ⟨back, hcut, rfl⟩ := hmessage
  obtain ⟨front, htext, hfront⟩ := Text.dropBytes?_eq_some_iff.1 hcut
  rw [hword.told] at htext
  rw [String.toList_ofList]
  obtain ⟨between, rfl, htoken⟩ | ⟨between, rfl, rfl⟩ := List.append_eq_append_iff.1 htext
  · -- The cut falls into the token, since the blanks have bytes of their own.
    have hblanks : byteLength blanks ≠ 0 := fun hzero => hne (Text.byteLength_eq_zero hzero)
    rw [Text.byteLength_append] at hfront
    obtain ⟨more, rfl, -⟩ | ⟨last, hlast, rfl⟩ := List.append_eq_append_iff.1 htoken
    · rw [Text.byteLength_append] at hfront
      omega
    · have hlastne : last ≠ [] := by
        rintro rfl
        rw [List.append_nil] at hlast
        rw [hlast] at hfront
        omega
      refine ⟨between, last, hlast, hlastne, Text.dropBlanks_word_append hlastne ?_ rest⟩
      exact fun c hc => hword.plain c (hlast ▸ List.mem_append_right _ hc)
  · -- The cut falls into the blanks.
    refine ⟨[], errno.token.toList, rfl, hword.telling, ?_⟩
    rw [Text.dropBlanks_blanks_append fun c hc => hword.blank c (List.mem_append_right _ hc)]
    exact Text.dropBlanks_word_append hword.telling hword.plain rest

/-! ## Taking a reply apart -/

/-- What a client relies on when it takes a reply apart. There is a message. A token is the first
word of the text, and the message is what stands behind it without the blanks there; without a
token the message is the whole text. -/
structure TakenApart (r : Reply) : Prop where
  safe : r.message?.isSome
  divided : ∀ errno, r.errno? = some errno → ∃ blanks rest,
    FirstWord r.text.toList blanks errno.token.toList rest ∧
      r.message? = some (String.ofList (dropBlanks rest))
  whole : r.errno? = none → r.message? = some r.text

theorem eq_nil_of_opensPlainly (h : Text.opensPlainly r.text = true)
    (hword : FirstWord r.text.toList blanks errno.token.toList rest) : blanks = [] := by
  cases blanks with
  | nil => rfl
  | cons blank blanks =>
    rw [Text.opensPlainly, hword.told, List.cons_append, List.head?_cons, Option.any_some,
      hword.blank blank List.mem_cons_self] at h
    cases h

theorem opensPlainly_of_start (hword : FirstWord r.text.toList [] errno.token.toList rest) :
    Text.opensPlainly r.text = true := by
  obtain ⟨c, cs, hcs⟩ := List.exists_cons_of_ne_nil hword.telling
  have hplain := hword.plain c (hcs ▸ List.mem_cons_self)
  rw [Text.opensPlainly, hword.told, hcs, List.nil_append, List.cons_append, List.head?_cons,
    Option.any_some, hplain]
  rfl

theorem TakenApart.opensPlainly (h : r.TakenApart) (herrno : r.errno? = some errno) :
    Text.opensPlainly r.text = true := by
  obtain ⟨blanks, rest, hword, hmessage⟩ := h.divided errno herrno
  by_cases hne : blanks = []
  · subst hne
    exact opensPlainly_of_start hword
  · -- The end of the token would make the message longer than the rest of the text.
    obtain ⟨front, back, -, hback, hlong⟩ := exists_append_of_message? herrno hword hne hmessage
    rw [String.toList_ofList] at hlong
    have hshort : (dropBlanks rest).length ≤ rest.length := List.length_dropWhile_le _ _
    have hpos := List.length_pos_of_ne_nil hback
    rw [hlong, List.length_append] at hshort
    omega

theorem takenApart_of_opensPlainly (h : Text.opensPlainly r.text = true)
    (herrno : r.errno? = some errno) : r.TakenApart := by
  obtain ⟨-, blanks, rest, hword⟩ := errno?_eq_some_iff.1 herrno
  obtain rfl := eq_nil_of_opensPlainly h hword
  have hmessage := message?_of_start herrno hword
  refine ⟨by rw [hmessage]; rfl, fun other hother => ?_, fun hnone => ?_⟩
  · obtain rfl := Option.some.inj (herrno.symm.trans hother)
    exact ⟨[], rest, hword, hmessage⟩
  · rw [herrno] at hnone
    cases hnone

theorem message?_of_errno?_eq_none (h : r.errno? = none) : r.message? = some r.text := by
  rw [message?, h]

theorem takenApart_of_errno?_eq_none (h : r.errno? = none) : r.TakenApart := by
  refine ⟨by rw [message?_of_errno?_eq_none h]; rfl, fun errno hsome => ?_,
    message?_of_errno?_eq_none⟩
  rw [h] at hsome
  cases hsome

/-- Any reply, whoever wrote it, is taken apart as it should be, unless it has a token and its text
opens with a blank. The token is the first word of a negative reply whenever this is one, and
without a token the message is the text. Behind blanks, there is no message exactly when the bytes
of the token end inside a blank; otherwise the message opens with the end of the token. -/
theorem takenApart_iff_opensPlainly (r : Reply) :
    (r.TakenApart ↔ (r.errno?.isSome → Text.opensPlainly r.text = true)) ∧
    (∀ errno, r.errno? = some errno ↔ r.isPositive = false ∧
      ∃ blanks rest, FirstWord r.text.toList blanks errno.token.toList rest) ∧
    (r.errno? = none → r.message? = some r.text) ∧
    (∀ errno blanks rest, r.errno? = some errno →
      FirstWord r.text.toList blanks errno.token.toList rest →
      (blanks = [] → r.message? = some (String.ofList (dropBlanks rest))) ∧
      (r.message? = none ↔ Divides (byteLength errno.token.toList) blanks) ∧
      (∀ message, blanks ≠ [] → r.message? = some message →
        ∃ front back, errno.token.toList = front ++ back ∧ back ≠ [] ∧
          message.toList = back ++ rest)) := by
  refine ⟨⟨fun h hsome => ?_, fun h => ?_⟩, fun errno => errno?_eq_some_iff,
    message?_of_errno?_eq_none, fun errno blanks rest herrno hword =>
      ⟨?_, message?_eq_none_iff herrno hword,
        fun message => exists_append_of_message? herrno hword⟩⟩
  · obtain ⟨errno, herrno⟩ := Option.isSome_iff_exists.1 hsome
    exact h.opensPlainly herrno
  · cases herrno : r.errno? with
    | none => exact takenApart_of_errno?_eq_none herrno
    | some errno => exact takenApart_of_opensPlainly (h (by rw [herrno]; rfl)) herrno
  · rintro rfl
    exact message?_of_start herrno hword

/-- A blank too many in front of the token, and the last letter of the token opens the message. -/
theorem not_forall_takenApart :
    ¬ ∀ (line : String) (r : Reply), parse line = .ok r → r.TakenApart := by
  intro h
  have htaken : TakenApart ⟨550, " ENOENT gone"⟩ := h "550  ENOENT gone\r\n" _ (by decide)
  have herrno : errno? ⟨550, " ENOENT gone"⟩ = some .noEntry := by decide
  have hplain := htaken.opensPlainly herrno
  exact absurd hplain (by decide)

-- The bytes of the token end inside the second blank.
example : message? ⟨550, "\u00a0\u00a0EIO gone"⟩ = none := by decide

end Reply

end VolumeStore
