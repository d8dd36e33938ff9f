import VolumeStore.Proofs.Text.LineEnd
import VolumeStore.Proofs.Volume.Written
import VolumeStore.Wire.Command

/-!
# Request lines

A command can be told from its line exactly when its text is not empty and does not end like a line,
and its open flags can be used. Every command that is read from a line is one of these.
-/

namespace VolumeStore

theorem mapError_eq_ok_iff {ε ε' α : Type} {f : ε → ε'} {x : Except ε α} {a : α} :
    x.mapError f = .ok a ↔ x = .ok a := by
  cases x <;> simp [Except.mapError]

theorem bind_eq_ok_iff {ε α β : Type} {x : Except ε α} {f : α → Except ε β} {b : β} :
    x >>= f = .ok b ↔ ∃ a, x = .ok a ∧ f a = .ok b := by
  cases x <;> simp [bind, Except.bind]

theorem OpenFlags.fault?_of_parse {cs : List Char} {flags : OpenFlags}
    (h : OpenFlags.parse cs = .ok flags) : flags.fault? = none := by
  unfold OpenFlags.parse at h
  split at h
  · split at h
    · cases h
      assumption
    · cases h
  · cases h

theorem OpenFlags.space_notMem_render (flags : OpenFlags) : ' ' ∉ flags.render.toList := by
  rw [render, String.toList_ofList]
  intro h
  simp [renderChars, letters] at h

namespace Command

def text? : Command → Option String
  | mount text | makeDirectory text | stat text | delete text | renameFrom text | renameTo text
  | list text | create _ text | append _ text | removeDirectory _ text | openFile _ text =>
    some text
  | quit | noop | write _ _ _ | read _ _ _ | flush _ | close _ => none

def flags? : Command → Option OpenFlags
  | openFile flags _ => some flags
  | _ => none

structure Legible (c : Command) : Prop where
  text : ∀ text ∈ c.text?, text ≠ "" ∧ Text.EndsOpen text.toList
  flags : ∀ flags ∈ c.flags?, flags.fault? = none

/-! ## Fields -/

theorem isDigitOf_of_mem_numberField {n : UInt64} {c : Char} (h : c ∈ (numberField n).toList) :
    Text.isDigitOf 10 c = true :=
  Text.isDigitOf_of_mem_decimal h

theorem space_notMem_numberField (n : UInt64) : ' ' ∉ (numberField n).toList := by
  intro h
  exact absurd (isDigitOf_of_mem_numberField h) (by decide)

theorem endsOpen_numberField (n : UInt64) : Text.EndsOpen (numberField n).toList :=
  Text.endsOpen_of_forall fun _ h => Text.isLineEnd_of_isDigitOf (isDigitOf_of_mem_numberField h)

theorem number_numberField (what : String) (n : UInt64) :
    number what (some (numberField n).toList) = .ok n := by
  rw [number, numberField, Option.bind_some, Text.readUInt64?_decimal]

theorem required_eq_ok_iff {what : String} {rest : Option (List Char)} {text : String} :
    required what rest = .ok text ↔ rest = some text.toList ∧ text ≠ "" := by
  unfold required
  split
  next c cs =>
    rw [Except.ok.injEq, Option.some.injEq]
    constructor
    · rintro rfl
      simp
    · rintro ⟨h, -⟩
      rw [h, String.ofList_toList]
  next h =>
    constructor
    · intro he
      cases he
    · rintro ⟨rfl, hne⟩
      cases htext : text.toList with
      | nil => exact absurd (String.toList_eq_nil_iff.1 htext) hne
      | cons c cs => exact absurd (congrArg some htext) (h c cs)

theorem required_trimLineEnd {text : String} (what : String) (hne : text ≠ "")
    (hopen : Text.EndsOpen text.toList) :
    required what (some (Text.trimLineEnd text.toList)) = .ok text := by
  rw [Text.trimLineEnd_eq_self_iff.2 hopen]
  exact required_eq_ok_iff.2 ⟨rfl, hne⟩

/-! ## What is read -/

section

variable {verb : Verb} {rest : Option (List Char)} {c : Command} {what text : String}

theorem eq_append_of_required
    (h : required what (Text.firstField ' ' (rest.getD [])).2 = .ok text) :
    rest = some ((Text.firstField ' ' (rest.getD [])).1 ++ ' ' :: text.toList) := by
  obtain ⟨htext, -⟩ := required_eq_ok_iff.1 h
  have hrest := Text.eq_append_of_firstField (Prod.ext rfl htext)
  cases rest with
  | none => simp at hrest
  | some cs => exact congrArg some hrest

def EndsIn (rest : Option (List Char)) (text : String) : Prop :=
  text ≠ "" ∧ ∃ front, rest = some (front ++ text.toList)

theorem endsIn_of_required (h : required what rest = .ok text) : EndsIn rest text := by
  obtain ⟨hrest, hne⟩ := required_eq_ok_iff.1 h
  exact ⟨hne, [], hrest⟩

theorem endsIn_of_required_behind
    (h : required what (Text.firstField ' ' (rest.getD [])).2 = .ok text) : EndsIn rest text := by
  refine ⟨(required_eq_ok_iff.1 h).2, (Text.firstField ' ' (rest.getD [])).1 ++ [' '], ?_⟩
  rw [List.append_assoc]
  exact eq_append_of_required h

/-- The command is one of this verb, its text is what the rest of the line ends in, and its open
flags can be used. -/
structure ReadAs (verb : Verb) (rest : Option (List Char)) (c : Command) : Prop where
  verb_eq : c.verb = verb
  text : ∀ text ∈ c.text?, EndsIn rest text
  flags : ∀ flags ∈ c.flags?, flags.fault? = none

theorem readAs_of_ofVerb (h : ofVerb verb rest = .ok c) : ReadAs verb rest c := by
  unfold ofVerb at h
  -- A text stands last: right behind the verb, or behind one field that ends at the first space.
  cases verb with
  | quit | noop =>
    cases h
    exact ⟨rfl, nofun, nofun⟩
  | mount | makeDirectory | stat | delete | renameFrom | renameTo | list =>
    obtain ⟨text, hr, hc⟩ := bind_eq_ok_iff.1 h
    cases hc
    refine ⟨rfl, fun text ht => ?_, nofun⟩
    cases ht
    exact endsIn_of_required hr
  | create | append | removeDirectory =>
    obtain ⟨n, -, h⟩ := bind_eq_ok_iff.1 h
    obtain ⟨text, hr, hc⟩ := bind_eq_ok_iff.1 h
    cases hc
    refine ⟨rfl, fun text ht => ?_, nofun⟩
    cases ht
    exact endsIn_of_required_behind hr
  | openFile =>
    obtain ⟨flags, hflags, h⟩ := bind_eq_ok_iff.1 h
    obtain ⟨text, hr, hc⟩ := bind_eq_ok_iff.1 h
    cases hc
    refine ⟨rfl, fun text ht => ?_, fun flags hf => ?_⟩
    · cases ht
      exact endsIn_of_required_behind hr
    · cases hf
      exact OpenFlags.fault?_of_parse hflags
  | write | read =>
    dsimp only at h
    unfold range at h
    split at h
    · obtain ⟨fd, -, h⟩ := bind_eq_ok_iff.1 h
      obtain ⟨offset, -, h⟩ := bind_eq_ok_iff.1 h
      obtain ⟨len, -, hc⟩ := bind_eq_ok_iff.1 h
      cases hc
      exact ⟨rfl, nofun, nofun⟩
    · cases h
  | flush | close =>
    obtain ⟨fd, -, hc⟩ := bind_eq_ok_iff.1 h
    cases hc
    exact ⟨rfl, nofun, nofun⟩

end

theorem legible_of_parse {line : String} {c : Command} (h : parse line = .ok c) : c.Legible := by
  unfold parse at h
  split at h
  next name rest hfields =>
    split at h
    · cases h
    · have hread := readAs_of_ofVerb (mapError_eq_ok_iff.1 h)
      refine ⟨fun text ht => ⟨(hread.text text ht).1, ?_⟩, hread.flags⟩
      obtain ⟨-, front, hrest⟩ := hread.text text ht
      have hline := Text.eq_append_of_firstField (hrest ▸ hfields)
      have hopen := Text.endsOpen_trimLineEnd line.toList
      rw [hline, show name ++ ' ' :: (front ++ text.toList) =
        (name ++ ' ' :: front) ++ text.toList by simp] at hopen
      exact hopen.of_append

/-! ## What is written -/

def fields (c : Command) : List Char :=
  List.intercalate [' '] (c.arguments.map (·.toList))

theorem toList_toLine {c : Command} {field : String} {more : List String}
    (h : c.arguments = field :: more) :
    c.toLine.toList = c.verb.token.toList ++ ' ' :: c.fields := by
  rw [toLine, String.toList_intercalate, fields, h, List.map_cons, List.map_cons]
  show List.intercalate [' '] _ = _
  rw [List.intercalate_cons_cons, List.append_assoc]
  rfl

theorem byteLength_toLine {c : Command} {field : String} {more : List String}
    (h : c.arguments = field :: more) :
    Text.byteLength c.toLine.toList =
      Text.byteLength c.verb.token.toList + 1 + Text.byteLength c.fields := by
  have hspace : ' '.utf8Size = 1 := by decide
  rw [toList_toLine h, Text.byteLength_append, Text.byteLength_cons, hspace, Nat.add_assoc]

theorem parse_toLine_of_ofVerb {c : Command} {field : String} {more : List String}
    (h : c.arguments = field :: more)
    (hread : ofVerb c.verb (some (Text.trimLineEnd c.fields)) = .ok c) :
    parse c.toLine = .ok c := by
  have htrim : Text.trimLineEnd c.toLine.toList =
      c.verb.token.toList ++ ' ' :: Text.trimLineEnd c.fields := by
    rw [toList_toLine h]
    exact Text.dropTrailing_append_cons _ _ (by decide)
  unfold parse
  rw [htrim, Text.firstField_append_cons c.verb.space_notMem_token]
  dsimp only
  rw [Verb.parse?_token]
  dsimp only
  rw [hread]
  rfl

theorem fields_one {c : Command} {field : String} (h : c.arguments = [field]) :
    c.fields = field.toList := by
  rw [fields, h, List.map_singleton, List.intercalate_singleton]

theorem fields_two {c : Command} {field text : String} (h : c.arguments = [field, text]) :
    c.fields = field.toList ++ ' ' :: text.toList := by
  simp [fields, h, List.intercalate_cons_cons]

theorem fields_three {c : Command} {k m n : String} (h : c.arguments = [k, m, n]) :
    c.fields = k.toList ++ ' ' :: (m.toList ++ ' ' :: n.toList) := by
  simp [fields, h, List.intercalate_cons_cons]

theorem firstField_fields {c : Command} {field text : String} (h : c.arguments = [field, text])
    (hfield : ' ' ∉ field.toList) :
    Text.firstField ' ' (Text.trimLineEnd c.fields) =
      (field.toList, some (Text.trimLineEnd text.toList)) := by
  rw [fields_two h, Text.trimLineEnd, Text.dropTrailing_append_cons _ _ (by decide)]
  exact Text.firstField_append_cons hfield _

theorem splitOn_fields {c : Command} {k m n : UInt64}
    (h : c.arguments = [numberField k, numberField m, numberField n]) :
    (Text.trimLineEnd c.fields).splitOn ' ' =
      [(numberField k).toList, (numberField m).toList, (numberField n).toList] := by
  have hlast : Text.dropTrailing Text.isLineEnd (numberField n).toList = (numberField n).toList :=
    Text.trimLineEnd_eq_self_iff.2 (endsOpen_numberField n)
  rw [fields_three h, Text.trimLineEnd, Text.dropTrailing_append_cons _ _ (by decide),
    Text.dropTrailing_append_cons _ _ (by decide), hlast,
    List.splitOn_append_cons_self_of_not_mem (space_notMem_numberField k),
    List.splitOn_append_cons_self_of_not_mem (space_notMem_numberField m),
    List.splitOn_eq_singleton (space_notMem_numberField n)]

theorem parse_toLine {c : Command} (h : c.Legible) : parse c.toLine = .ok c := by
  -- Only the last field can hold spaces, so every field in front of it is read up to the first one.
  cases c with
  | quit | noop => rfl
  | mount text | makeDirectory text | stat text | delete text | renameFrom text | renameTo text
  | list text =>
    obtain ⟨hne, hopen⟩ := h.text text rfl
    apply parse_toLine_of_ofVerb rfl
    rw [fields_one rfl]
    exact bind_eq_ok_iff.2 ⟨text, required_trimLineEnd _ hne hopen, rfl⟩
  | create n text | append n text =>
    obtain ⟨hne, hopen⟩ := h.text text rfl
    apply parse_toLine_of_ofVerb rfl
    rw [ofVerb, Option.getD_some, firstField_fields rfl (space_notMem_numberField n)]
    apply bind_eq_ok_iff.2
    refine ⟨n, number_numberField _ n, ?_⟩
    exact bind_eq_ok_iff.2 ⟨text, required_trimLineEnd _ hne hopen, rfl⟩
  | removeDirectory recursive text =>
    obtain ⟨hne, hopen⟩ := h.text text rfl
    have hspace : ' ' ∉ (if recursive then "1" else "0").toList := by cases recursive <;> decide
    apply parse_toLine_of_ofVerb rfl
    rw [ofVerb, Option.getD_some, firstField_fields rfl hspace]
    apply bind_eq_ok_iff.2
    refine ⟨recursive, by cases recursive <;> rfl, ?_⟩
    exact bind_eq_ok_iff.2 ⟨text, required_trimLineEnd _ hne hopen, rfl⟩
  | openFile flags text =>
    obtain ⟨hne, hopen⟩ := h.text text rfl
    have hflags : OpenFlags.parse flags.render.toList = .ok flags := by
      rw [OpenFlags.render, String.toList_ofList]
      exact (OpenFlags.parse_renderChars flags).2 (h.flags flags rfl)
    apply parse_toLine_of_ofVerb rfl
    rw [ofVerb, Option.getD_some, firstField_fields rfl flags.space_notMem_render]
    apply bind_eq_ok_iff.2
    refine ⟨flags, hflags, ?_⟩
    exact bind_eq_ok_iff.2 ⟨text, required_trimLineEnd _ hne hopen, rfl⟩
  | write fd offset len | read fd offset len =>
    apply parse_toLine_of_ofVerb rfl
    show range _ _ = _
    -- Numbers hold no space at all: the line is cut at each one.
    rw [range, Option.getD_some, splitOn_fields rfl]
    apply bind_eq_ok_iff.2
    refine ⟨fd, number_numberField _ fd, ?_⟩
    apply bind_eq_ok_iff.2
    refine ⟨offset, number_numberField _ offset, ?_⟩
    exact bind_eq_ok_iff.2 ⟨len, number_numberField _ len, rfl⟩
  | flush fd | close fd =>
    apply parse_toLine_of_ofVerb rfl
    rw [fields_one rfl, Text.trimLineEnd_eq_self_iff.2 (endsOpen_numberField fd)]
    exact bind_eq_ok_iff.2 ⟨fd, number_numberField _ fd, rfl⟩

theorem parse_toLine_iff_legible {c : Command} : parse c.toLine = .ok c ↔ c.Legible :=
  ⟨legible_of_parse, parse_toLine⟩

theorem parse_append_lineEnd (line : String) : parse (line ++ Reply.lineEnd) = parse line := by
  unfold parse
  rw [String.toList_append, Text.trimLineEnd_append_lineEnd]

/-! ## Lines without line ends -/

theorem mem_arguments {c : Command} {field : String} (h : field ∈ c.arguments) :
    field ∈ c.text? ∨ ∀ ch ∈ field.toList, Text.isLineEnd ch = false := by
  have hnumber : ∀ n, ∀ ch ∈ (numberField n).toList, Text.isLineEnd ch = false :=
    fun n ch hch => Text.isLineEnd_of_isDigitOf (isDigitOf_of_mem_numberField hch)
  have hflags : ∀ flags : OpenFlags, ∀ ch ∈ flags.render.toList, Text.isLineEnd ch = false := by
    intro flags ch hch
    rw [OpenFlags.render, String.toList_ofList] at hch
    have hletter : ch ∈ ['r', 'w', 'a', 'c', 't'] := by
      simp only [OpenFlags.renderChars, List.mem_map, List.mem_filter] at hch
      obtain ⟨entry, ⟨hentry, -⟩, rfl⟩ := hch
      simp only [OpenFlags.letters, List.mem_cons, List.not_mem_nil, or_false] at hentry
      rcases hentry with rfl | rfl | rfl | rfl | rfl <;> simp
    exact Text.isLineEnd_of_all (by decide) hletter
  have hswitch : ∀ b : Bool, ∀ ch ∈ (if b then "1" else "0").toList, Text.isLineEnd ch = false := by
    intro b ch hch
    cases b <;> exact Text.isLineEnd_of_all (by decide) hch
  -- The fields in front of a text are numbers, flags and switches.
  cases c with
  | quit | noop => cases h
  | mount text | makeDirectory text | stat text | delete text | renameFrom text | renameTo text
  | list text =>
    rw [List.mem_singleton.1 h]
    exact .inl rfl
  | create n text | append n text =>
    rcases List.mem_pair.1 h with rfl | rfl
    · exact .inr (hnumber n)
    · exact .inl rfl
  | removeDirectory recursive text =>
    rcases List.mem_pair.1 h with rfl | rfl
    · exact .inr (hswitch recursive)
    · exact .inl rfl
  | openFile flags text =>
    rcases List.mem_pair.1 h with rfl | rfl
    · exact .inr (hflags flags)
    · exact .inl rfl
  | write fd offset len | read fd offset len =>
    simp only [arguments, List.mem_cons, List.not_mem_nil, or_false] at h
    rcases h with rfl | rfl | rfl <;> exact .inr (hnumber _)
  | flush fd | close fd =>
    rw [List.mem_singleton.1 h]
    exact .inr (hnumber fd)

theorem isLineEnd_of_mem_toLine {c : Command}
    (h : ∀ text ∈ c.text?, ∀ ch ∈ text.toList, Text.isLineEnd ch = false) {ch : Char}
    (hch : ch ∈ c.toLine.toList) : Text.isLineEnd ch = false := by
  have htoken : ∀ verb : Verb, ∀ ch ∈ verb.token.toList, Text.isLineEnd ch = false := by
    intro verb ch hch
    cases verb <;> exact Text.isLineEnd_of_all (by decide) hch
  rw [toLine, String.toList_intercalate] at hch
  rcases Text.mem_intercalate hch with rfl | ⟨field, hmem, hch⟩
  · decide
  · obtain ⟨part, hpart, rfl⟩ := List.mem_map.1 hmem
    rcases List.mem_cons.1 hpart with rfl | hpart
    · exact htoken c.verb ch hch
    · rcases mem_arguments hpart with htext | hplain
      · exact h part htext ch hch
      · exact hplain ch hch

end Command

end VolumeStore
