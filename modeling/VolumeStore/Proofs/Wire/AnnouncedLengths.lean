import VolumeStore.Proofs.Text.Cut
import VolumeStore.Proofs.Text.Numerals
import VolumeStore.Proofs.Wire.RequestLines

/-!
# Announced lengths

The length of a payload is read twice, from the whole line of a command and from the first fields of
a line that may be cut off. Both give the same number when the line has its length to the last
digit. A line that is cut off in front of that announces nothing, and one that is cut off within the
length announces a tenth of it at most.
-/

namespace VolumeStore

/-! ## Verbs at the start of a line -/

namespace Verb

variable {v w : Verb} {a b : List Char}

theorem eq_of_token_isPrefix (h : v.token.toList <+: w.token.toList) : v = w := by
  have hall : (all.all fun v => all.all fun w =>
      !v.token.toList.isPrefixOf w.token.toList || v == w) = true := by
    decide +kernel
  have hvw := List.all_eq_true.1 (List.all_eq_true.1 hall v v.mem_all) w w.mem_all
  rw [List.isPrefixOf_iff_prefix.2 h] at hvw
  simpa using hvw

theorem token_of_parse? (h : parse? a = some v) : v.token.toList = upperCase a := by
  simpa using List.find?_some h

theorem eq_of_isPrefix (ha : parse? a = some v) (hb : parse? b = some w) (h : a <+: b) : v = w := by
  apply eq_of_token_isPrefix
  rw [token_of_parse? ha, token_of_parse? hb]
  exact h.map Char.toUpper

theorem isLineEnd_of_parse? (h : parse? a = some v) {c : Char} (hc : c ∈ a) :
    Text.isLineEnd c = false := by
  have hplain : v.token.toList.all (fun c => !Text.isLineEnd c) = true := by
    cases v <;> decide
  have hmem : c.toUpper ∈ v.token.toList := by
    rw [token_of_parse? h]
    exact List.mem_map_of_mem hc
  have hupper := Text.isLineEnd_of_all hplain hmem
  rw [Bool.eq_false_iff]
  intro hend
  -- A line end is no letter, so it stays as it is among capitals.
  have hsame : c = '\r' ∨ c = '\n' := by simpa [Text.isLineEnd] using hend
  obtain rfl | rfl := hsame
  · exact absurd hupper (by decide)
  · exact absurd hupper (by decide)

end Verb

/-! ## Where a line tells the length of its payload -/

namespace Command

variable {verb w : Verb} {len : UInt64} {front field back more part p : List Char} {line : String}

/-- What may stand behind the length of a payload: nothing, or another field, or the end of the
line. -/
def Closes (back : List Char) : Prop :=
  (∀ c ∈ back.head?, c = ' ') ∨ ∀ c ∈ back, Text.isLineEnd c = true

/-- A line that goes on with `back` has the length of its payload in this field, behind the fields
in `front`. -/
structure TellsLength (verb : Verb) (len : UInt64) (front field back : List Char) : Prop where
  spelled : Verb.parse? (Text.firstField ' ' front).1 = some verb
  place : lengthField? verb = some (front.splitOn ' ').length
  number : Text.readUInt64? field = some len
  closes : Closes back

theorem head?_splitOn_append (front back : List Char) :
    (front.splitOn ' ' ++ back.splitOn ' ').head? = some (Text.firstField ' ' front).1 := by
  rw [List.head?_append, Text.head?_splitOn, Option.some_or]

theorem getElem?_splitOn_append (front back : List Char) :
    (front.splitOn ' ' ++ back.splitOn ' ')[(front.splitOn ' ').length]? =
      some (Text.firstField ' ' back).1 := by
  rw [List.getElem?_append_right (Nat.le_refl _), Nat.sub_self, ← List.head?_eq_getElem?,
    Text.head?_splitOn]

theorem announcedPayload?_append (hline : line.toList = front ++ ' ' :: back)
    (hverb : Verb.parse? (Text.firstField ' ' front).1 = some verb)
    (hplace : lengthField? verb = some (front.splitOn ' ').length) :
    announcedPayload? line = Text.readUInt64? (Text.trimLineEnd (Text.firstField ' ' back).1) := by
  unfold announcedPayload?
  simp only [hline, List.splitOn_append_cons_self, head?_splitOn_append, Option.bind_eq_bind,
    Option.bind_some, hverb, hplace, getElem?_splitOn_append]

theorem Closes.of_isPrefix (h : Closes back) (hmore : more <+: back) : Closes more := by
  obtain hspace | hends := h
  · left
    intro c hc
    apply hspace
    obtain ⟨tail, rfl⟩ := hmore
    rw [List.head?_append, Option.mem_def.1 hc]
    rfl
  · right
    exact fun c hc => hends c (hmore.subset hc)

theorem Closes.trim_firstField (h : Closes back) (hspace : ' ' ∉ field)
    (hplain : ∀ c ∈ field, Text.isLineEnd c = false) :
    Text.trimLineEnd (Text.firstField ' ' (field ++ back)).1 = field := by
  have htrim : Text.trimLineEnd field = field :=
    Text.trimLineEnd_eq_self_iff.2 (Text.endsOpen_of_forall hplain)
  obtain hback | hends := h
  · cases back with
    | nil =>
      rw [List.append_nil, Text.firstField_of_not_mem hspace]
      exact htrim
    | cons c back =>
      rw [hback c rfl, Text.firstField_append_cons hspace]
      exact htrim
  · have hback : ' ' ∉ back := fun hmem => absurd (hends _ hmem) (by decide)
    rw [Text.firstField_of_not_mem (by simp [hspace, hback])]
    exact (Text.dropTrailing_append_of_all field hends).trans htrim

def lengthEnd? (line : String) : Option Nat := do
  let fields := line.toList.splitOn ' '
  let verb ← Verb.parse? (← fields.head?)
  let i ← lengthField? verb
  let field ← fields[i]?
  return Text.byteLength ([' '].intercalate (fields.take i)) + 1 +
    Text.byteLength (Text.trimLineEnd field)

namespace TellsLength

theorem trim_firstField (h : TellsLength verb len front field back) :
    Text.trimLineEnd (Text.firstField ' ' (field ++ back)).1 = field :=
  h.closes.trim_firstField (Text.space_notMem_of_readUInt64? h.number)
    fun _ hc => Text.isLineEnd_of_readUInt64? h.number hc

theorem lengthEnd?_eq (h : TellsLength verb len front field back)
    (hline : line.toList = front ++ ' ' :: (field ++ back)) :
    lengthEnd? line = some (Text.byteLength front + 1 + Text.byteLength field) := by
  unfold lengthEnd?
  simp only [hline, List.splitOn_append_cons_self, head?_splitOn_append, Option.bind_eq_bind,
    Option.bind_some, h.spelled, h.place, getElem?_splitOn_append, List.take_left,
    List.intercalate_splitOn, h.trim_firstField]
  rfl

theorem of_more (h : TellsLength verb len front field back) (hmore : more <+: back) :
    TellsLength verb len front field more :=
  { h with closes := h.closes.of_isPrefix hmore }

theorem announcedPayload?_whole (h : TellsLength verb len front field back)
    (hline : line.toList = front ++ ' ' :: (field ++ back)) :
    announcedPayload? line = some len := by
  rw [announcedPayload?_append hline h.spelled h.place, h.trim_firstField, h.number]

theorem announcedPayload?_front (h : TellsLength verb len front field back)
    (hline : line.toList <+: front) : announcedPayload? line = none := by
  have hcount : (line.toList.splitOn ' ').length ≤ (front.splitOn ' ').length := by
    rw [Text.length_splitOn, Text.length_splitOn]
    exact Nat.add_le_add_right (hline.count_le ' ') 1
  unfold announcedPayload?
  simp only [Text.head?_splitOn, Option.bind_eq_bind, Option.bind_some]
  cases hw : Verb.parse? (Text.firstField ' ' line.toList).1 with
  | none => rfl
  | some w =>
    -- There is no other verb that this one could be the start of.
    have hfirst : (Text.firstField ' ' line.toList).1 <+: (Text.firstField ' ' front).1 :=
      Text.isPrefix_firstField ((Text.firstField_isPrefix ' ' _).trans hline)
        (Text.notMem_firstField ' ' _)
    rw [Verb.eq_of_isPrefix hw h.spelled hfirst, Option.bind_some, h.place, Option.bind_some,
      List.getElem?_eq_none hcount]
    rfl

theorem ten_mul_le (h : TellsLength verb len front field back) (hpart : part <+: field)
    (hne : part ≠ field) (hline : line.toList = front ++ ' ' :: part) :
    ∀ k ∈ announcedPayload? line, 10 * k.toNat ≤ len.toNat := by
  intro k hk
  obtain ⟨tail, rfl⟩ := hpart
  have hspace : ' ' ∉ part := fun hmem =>
    Text.space_notMem_of_readUInt64? h.number (List.mem_append_left tail hmem)
  have hplain : ∀ c ∈ part, Text.isLineEnd c = false := fun c hc =>
    Text.isLineEnd_of_readUInt64? h.number (List.mem_append_left tail hc)
  have hnil : Closes [] := .inl (by simp)
  have hread := hnil.trim_firstField hspace hplain
  rw [List.append_nil] at hread
  rw [Option.mem_def, announcedPayload?_append hline h.spelled h.place, hread] at hk
  exact Text.ten_mul_le_of_readUInt64? h.number hk fun htail => hne (by rw [htail, List.append_nil])

/-- The start of a line announces the length if it has it to the last digit. Otherwise it announces
nothing or a tenth of it at most. -/
theorem of_isPrefix (h : TellsLength verb len front field back)
    (hp : line.toList <+: front ++ ' ' :: (field ++ back)) :
    (front ++ ' ' :: field <+: line.toList → announcedPayload? line = some len) ∧
      (¬ front ++ ' ' :: field <+: line.toList →
        ∀ k ∈ announcedPayload? line, 10 * k.toNat ≤ len.toNat) := by
  constructor
  · rintro ⟨more, hline⟩
    rw [List.append_assoc, List.cons_append] at hline
    rw [← hline, List.prefix_append_right_inj, List.cons_prefix_cons,
      List.prefix_append_right_inj] at hp
    exact (h.of_more hp.2).announcedPayload?_whole hline.symm
  · intro hcut
    -- The cut is in front of the field, at the space before it, or inside the field.
    obtain hfront | ⟨q, hq, hline⟩ := Text.isPrefix_append hp
    · rw [h.announcedPayload?_front hfront]
      nofun
    obtain rfl | ⟨part, rfl, hpart⟩ := List.prefix_cons_iff.1 hq
    · have hfront : line.toList <+: front := by simp [hline]
      rw [h.announcedPayload?_front hfront]
      nofun
    obtain hpart | ⟨more, -, rfl⟩ := Text.isPrefix_append hpart
    · exact h.ten_mul_le hpart (fun heq => hcut (by simp [hline, heq])) hline
    · exact absurd ⟨more, by simp [hline]⟩ hcut

end TellsLength

/-! ## Commands with a payload -/

variable {c : Command} {name : List Char} {rest : Option (List Char)}

theorem number_eq_ok_iff {what : String} {n : UInt64} :
    number what (some field) = .ok n ↔ Text.readUInt64? field = some n := by
  unfold number
  rw [Option.bind_some]
  split
  next m hm => rw [hm, Except.ok.injEq, Option.some.injEq]
  next hnone => simp [hnone]

theorem tellsLength_append {path : String} (hverb : Verb.parse? name = some .append)
    (hname : ' ' ∉ name) (h : ofVerb .append rest = .ok (.append len path)) (tail : List Char) :
    ∃ field back, rest = some (field ++ back) ∧
      TellsLength .append len name field (back ++ tail) := by
  obtain ⟨n, hnumber, h⟩ := bind_eq_ok_iff.1 h
  obtain ⟨text, hpath, hc⟩ := bind_eq_ok_iff.1 h
  cases hc
  refine ⟨_, _, eq_append_of_required hpath, ?_, ?_, number_eq_ok_iff.1 hnumber, ?_⟩
  · rw [Text.firstField_of_not_mem hname, hverb]
  · rw [List.splitOn_eq_singleton hname]
    rfl
  · exact .inl (by simp)

theorem tellsLength_write {fd offset : UInt64} (hverb : Verb.parse? name = some .write)
    (hname : ' ' ∉ name) (h : ofVerb .write rest = .ok (.write fd offset len)) {tail : List Char}
    (htail : ∀ c ∈ tail, Text.isLineEnd c = true) :
    ∃ before field, rest = some (before ++ ' ' :: field) ∧
      TellsLength .write len (name ++ ' ' :: before) field tail := by
  change range Command.write rest = _ at h
  unfold range at h
  -- There are exactly three fields, and the last of them is the length.
  split at h
  next fdField offsetField field hfields =>
    obtain ⟨fd, hfd, h⟩ := bind_eq_ok_iff.1 h
    obtain ⟨offset, hoffset, h⟩ := bind_eq_ok_iff.1 h
    obtain ⟨n, hnumber, hc⟩ := bind_eq_ok_iff.1 h
    cases hc
    have hfdField := Text.space_notMem_of_readUInt64? (number_eq_ok_iff.1 hfd)
    have hoffsetField := Text.space_notMem_of_readUInt64? (number_eq_ok_iff.1 hoffset)
    have hrest : rest.getD [] = (fdField ++ ' ' :: offsetField) ++ ' ' :: field := by
      rw [← @List.intercalate_splitOn _ (rest.getD []) _ _ ' ', hfields]
      simp [List.intercalate_cons_cons]
    cases rest with
    | none => simp at hrest
    | some cs =>
      refine ⟨_, field, congrArg some hrest, ?_, ?_, number_eq_ok_iff.1 hnumber, .inr htail⟩
      · rw [Text.firstField_append_cons hname, hverb]
      · rw [List.splitOn_append_cons_self_of_not_mem hname,
          List.splitOn_append_cons_self_of_not_mem hfdField, List.splitOn_eq_singleton hoffsetField]
        rfl
  · cases h

theorem ofVerb_of_parse (h : parse line = .ok c) :
    ∃ name rest tail, line.toList = Text.trimLineEnd line.toList ++ tail ∧
      (∀ ch ∈ tail, Text.isLineEnd ch = true) ∧
      Text.firstField ' ' (Text.trimLineEnd line.toList) = (name, rest) ∧
      Verb.parse? name = some c.verb ∧ ofVerb c.verb rest = .ok c := by
  unfold parse at h
  split at h
  next name rest hfields =>
    split at h
    · cases h
    next verb hverb =>
      have hread := mapError_eq_ok_iff.1 h
      rw [← (readAs_of_ofVerb hread).verb_eq] at hverb hread
      exact ⟨name, rest, line.toList.rtakeWhile Text.isLineEnd,
        List.rdropWhile_append_rtakeWhile.symm, fun _ hc => List.mem_rtakeWhile_imp hc, hfields,
        hverb, hread⟩

theorem exists_tellsLength (h : parse line = .ok c) (hlen : c.payloadLength? = some len) :
    ∃ front field back, line.toList = front ++ ' ' :: (field ++ back) ∧
      TellsLength c.verb len front field back := by
  obtain ⟨name, rest, tail, hline, htail, hfields, hverb, hread⟩ := ofVerb_of_parse h
  have hfirst : (Text.firstField ' ' (Text.trimLineEnd line.toList)).1 = name :=
    congrArg Prod.fst hfields
  have hname : ' ' ∉ name := hfirst ▸ Text.notMem_firstField ' ' _
  cases c with
  | append n path =>
    cases hlen
    obtain ⟨field, back, rfl, htells⟩ := tellsLength_append hverb hname hread tail
    rw [Text.eq_append_of_firstField hfields] at hline
    exact ⟨name, field, back ++ tail, by rw [hline]; simp, htells⟩
  | write fd offset n =>
    cases hlen
    obtain ⟨before, field, rfl, htells⟩ := tellsLength_write hverb hname hread htail
    rw [Text.eq_append_of_firstField hfields] at hline
    exact ⟨name ++ ' ' :: before, field, tail, by rw [hline]; simp, htells⟩
  | _ => cases hlen

/-! ## Commands without a payload -/

theorem verb_of_isPrefix {p : String} (h : parse line = .ok c) (hp : p.toList <+: line.toList)
    (hw : Verb.parse? (Text.firstField ' ' p.toList).1 = some w) : w = c.verb := by
  obtain ⟨name, rest, tail, hline, htail, hfields, hverb, -⟩ := ofVerb_of_parse h
  have hname : (Text.firstField ' ' (Text.trimLineEnd line.toList)).1 = name :=
    congrArg Prod.fst hfields
  have hspace := Text.notMem_firstField ' ' p.toList
  have hfirst := (Text.firstField_isPrefix ' ' p.toList).trans hp
  rw [hline] at hfirst
  refine Verb.eq_of_isPrefix hw hverb (hname ▸ ?_)
  obtain hinside | ⟨q, hq, hbeyond⟩ := Text.isPrefix_append hfirst
  · exact Text.isPrefix_firstField hinside hspace
  · -- A verb does not reach into the end of the line.
    have hnil : q = [] := by
      apply List.eq_nil_iff_forall_not_mem.2
      intro ch hch
      have hmem : ch ∈ (Text.firstField ' ' p.toList).1 := by
        rw [hbeyond]
        exact List.mem_append_right _ hch
      have hplain := Verb.isLineEnd_of_parse? hw hmem
      rw [htail ch (hq.subset hch)] at hplain
      cases hplain
    rw [hnil, List.append_nil] at hbeyond
    exact Text.isPrefix_firstField (hbeyond ▸ List.prefix_refl _) hspace

theorem lengthField?_verb_eq_none (h : c.payloadLength? = none) : lengthField? c.verb = none := by
  cases c <;> first | rfl | cases h

theorem announcedPayload?_eq_none {p : String} (h : parse line = .ok c)
    (hlen : c.payloadLength? = none) (hp : p.toList <+: line.toList) :
    announcedPayload? p = none := by
  unfold announcedPayload?
  simp only [Text.head?_splitOn, Option.bind_eq_bind, Option.bind_some]
  cases hw : Verb.parse? (Text.firstField ' ' p.toList).1 with
  | none => rfl
  | some w =>
    rw [verb_of_isPrefix h hp hw, Option.bind_some, lengthField?_verb_eq_none hlen]
    rfl

/-! ## Both readings -/

theorem announcedPayload?_of_parse (h : parse line = .ok c) :
    announcedPayload? line = c.payloadLength? := by
  cases hlen : c.payloadLength? with
  | none => exact announcedPayload?_eq_none h hlen (List.prefix_refl _)
  | some len =>
    obtain ⟨front, field, back, hline, htells⟩ := exists_tellsLength h hlen
    exact htells.announcedPayload?_whole hline

theorem announcedPayload?_of_append {path p : String} (h : parse line = .ok (.append len path))
    (hp : p.toList <+: line.toList) (hspaces : 2 ≤ p.toList.count ' ') :
    announcedPayload? p = some len := by
  obtain ⟨front, field, back, hline, htells⟩ := exists_tellsLength h rfl
  rw [hline] at hp
  apply (htells.of_isPrefix hp).1
  -- Up to the last digit there is one space.
  have hone : (front ++ ' ' :: field).count ' ' = 1 := by
    have hfront : (front.splitOn ' ').length = 1 := (Option.some.inj htells.place).symm
    have hfield : field.count ' ' = 0 :=
      List.count_eq_zero_of_not_mem (Text.space_notMem_of_readUInt64? htells.number)
    rw [Text.length_splitOn] at hfront
    rw [List.count_append, List.count_cons_self, hfield]
    omega
  have hwhole : front ++ ' ' :: field <+: front ++ ' ' :: (field ++ back) := ⟨back, by simp⟩
  obtain hle | hle := List.prefix_or_prefix_of_prefix hwhole hp
  · exact hle
  · have := hle.count_le ' '
    omega

theorem TellsLength.isPrefix_iff {p : String} {e : Nat} (h : TellsLength verb len front field back)
    (hline : line.toList = front ++ ' ' :: (field ++ back)) (he : lengthEnd? line = some e)
    (hp : p.toList <+: line.toList) :
    front ++ ' ' :: field <+: p.toList ↔ e ≤ Text.byteLength p.toList := by
  have hspace : ' '.utf8Size = 1 := by decide
  have hlength : Text.byteLength (front ++ ' ' :: field) = e := by
    rw [h.lengthEnd?_eq hline, Option.some.injEq] at he
    rw [Text.byteLength_append, Text.byteLength_cons, hspace, ← he, Nat.add_assoc]
  constructor
  · intro hle
    rw [← hlength]
    exact Text.byteLength_le_of_isPrefix hle
  · intro hle
    rw [← hlength] at hle
    exact Text.isPrefix_of_byteLength_le ⟨back, by rw [hline]; simp⟩ hp hle

/-- The start of a command's line announces what follows the command, or both are none, exactly when
the line is not cut off in front of the last digit of a length that is not zero. -/
theorem getD_announcedPayload?_eq_iff {p : String} (h : parse line = .ok c)
    (hp : p.toList <+: line.toList) :
    (announcedPayload? p).getD 0 = c.payloadLength?.getD 0 ↔
      c.payloadLength?.getD 0 = 0 ∨ ∀ e ∈ lengthEnd? line, e ≤ Text.byteLength p.toList := by
  cases hlen : c.payloadLength? with
  | none =>
    rw [announcedPayload?_eq_none h hlen hp]
    simp
  | some len =>
    obtain ⟨front, field, back, hline, htells⟩ := exists_tellsLength h hlen
    obtain ⟨e, he⟩ : ∃ e, lengthEnd? line = some e := ⟨_, htells.lengthEnd?_eq hline⟩
    obtain ⟨hwhole, hcut⟩ := htells.of_isPrefix (hline ▸ hp)
    rw [htells.isPrefix_iff hline he hp] at hwhole hcut
    simp only [he, Option.mem_def, Option.some.injEq, forall_eq', Option.getD_some]
    by_cases hle : e ≤ Text.byteLength p.toList
    · rw [hwhole hle, Option.getD_some]
      exact ⟨fun _ => .inr hle, fun _ => rfl⟩
    -- A field that is cut off has lost a digit, so it tells a tenth at most.
    · have hshort : 10 * ((announcedPayload? p).getD 0).toNat ≤ len.toNat := by
        cases hk : announcedPayload? p with
        | none => exact Nat.zero_le _
        | some k => exact hcut hle k hk
      rw [← UInt64.toNat_inj, ← UInt64.toNat_inj]
      have hzero : (0 : UInt64).toNat = 0 := rfl
      omega

end Command

end VolumeStore
