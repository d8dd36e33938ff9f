import VolumeStore.Proofs.Volume.Written

/-!
# Spellings of paths

The texts that are read as paths, and the segments that each of them spells, told by how such a text
is put together: slashes with fields behind them, of which some say nothing. A path has many
spellings. One of them is its canonical form, and two texts have the same one exactly when they
spell the same segments.
-/

namespace VolumeStore.VolumePath

/-- The text is a slash and a field, once or more, and the segments are its fields without those
that say nothing. No field is the one that leads upwards, and the segments are neither too long, in
bytes, nor too many. -/
structure Spells (path : String) (segments : List String) : Prop where
  printable : '\x00' ∉ path.toList ∧ '\r' ∉ path.toList ∧ '\n' ∉ path.toList
  divided : ∃ fields : List String, fields ≠ [] ∧
    path.toList = fields.flatMap (fun field => '/' :: field.toList) ∧
    (∀ field ∈ fields, '/' ∉ field.toList ∧ field ≠ "..") ∧
    segments = fields.filter fun field => field ≠ "" ∧ field ≠ "."
  short : ∀ segment ∈ segments, (Text.encode segment).length ≤ 255
  shallow : segments.length ≤ 32

variable {path other normal : String} {p : VolumePath} {fields segments : List String}

/-! ## Fields -/

theorem intercalate_cons_eq_flatMap {α : Type} (sep : α) (first : List α)
    (fields : List (List α)) :
    List.intercalate [sep] (first :: fields) = first ++ fields.flatMap (sep :: ·) := by
  induction fields generalizing first with
  | nil => simp
  | cons field fields ih => simp [List.intercalate_cons_cons, ih field]

theorem splitOn_eq_nil_cons_iff {text : List Char} {fields : List (List Char)} :
    text.splitOn '/' = [] :: fields ↔
      text = fields.flatMap ('/' :: ·) ∧ ∀ field ∈ fields, '/' ∉ field := by
  have hjoin : fields.flatMap ('/' :: ·) = List.intercalate ['/'] ([] :: fields) := by
    rw [intercalate_cons_eq_flatMap, List.nil_append]
  rw [hjoin]
  constructor
  · intro h
    refine ⟨?_, fun field hmem => Text.not_mem_of_mem_splitOn (h ▸ List.mem_cons_of_mem _ hmem)⟩
    rw [← h, List.intercalate_splitOn]
  · rintro ⟨rfl, hundivided⟩
    -- The empty field in front of the first slash holds no slash either.
    refine List.splitOn_intercalate _ (fun field hmem => ?_) (List.cons_ne_nil _ _)
    rcases List.mem_cons.1 hmem with rfl | hmem
    · exact List.not_mem_nil
    · exact hundivided field hmem

theorem isTrivialSegment_toList (field : String) :
    isTrivialSegment field.toList = !decide (field ≠ "" ∧ field ≠ ".") := by
  have hdot : field.toList = ['.'] ↔ field = "." := by
    rw [← String.toList_inj]
    rfl
  rw [Bool.eq_iff_iff]
  simp [isTrivialSegment, hdot]

theorem meaningfulSegments_of_fields
    (htold : path.toList = fields.flatMap fun field => '/' :: field.toList)
    (hundivided : ∀ field ∈ fields, '/' ∉ field.toList) :
    meaningfulSegments path =
      (fields.filter fun field => field ≠ "" ∧ field ≠ ".").map (·.toList) := by
  have hsplit : path.toList.splitOn '/' = [] :: fields.map (·.toList) := by
    rw [splitOn_eq_nil_cons_iff, List.flatMap_map]
    exact ⟨htold, by simpa using hundivided⟩
  rw [meaningfulSegments, hsplit, List.filter_cons_of_neg (by simp [isTrivialSegment]),
    List.filter_map]
  simp only [Function.comp_def, isTrivialSegment_toList, Bool.not_not]

theorem exists_fields (h : path.toList.head? = some '/') : ∃ fields : List String, fields ≠ [] ∧
    path.toList = fields.flatMap (fun field => '/' :: field.toList) ∧
    ∀ field ∈ fields, '/' ∉ field.toList := by
  obtain ⟨rest, hrest⟩ := List.head?_eq_some_iff.1 h
  have hsplit : path.toList.splitOn '/' = [] :: rest.splitOn '/' := by
    rw [hrest, ← List.nil_append ('/' :: rest), List.splitOn_append_cons_self]
    rfl
  obtain ⟨htold, hundivided⟩ := splitOn_eq_nil_cons_iff.1 hsplit
  refine ⟨(rest.splitOn '/').map String.ofList, by simp [List.splitOn_ne_nil], ?_, ?_⟩
  · rw [List.flatMap_map]
    simpa using htold
  · simpa using hundivided

/-! ## Reading -/

theorem any_isControl_eq_false_iff : path.toList.any isControl = false ↔
    '\x00' ∉ path.toList ∧ '\r' ∉ path.toList ∧ '\n' ∉ path.toList := by
  simp only [List.any_eq_false, isControl, Bool.or_eq_true, beq_iff_eq]
  constructor
  · intro h
    exact ⟨fun hc => h _ hc (by simp), fun hc => h _ hc (by simp), fun hc => h _ hc (by simp)⟩
  · rintro ⟨hnull, hreturn, hfeed⟩ c hc ((rfl | rfl) | rfl)
    · exact hnull hc
    · exact hreturn hc
    · exact hfeed hc

theorem parse_eq_ok_iff_spells : parse path = .ok p ↔ Spells path p.segments := by
  rw [parse_eq_ok_iff, any_isControl_eq_false_iff]
  constructor
  · rintro ⟨hprintable, habsolute, hfaults, hdepth, rfl⟩
    obtain ⟨fields, hne, htold, hundivided⟩ := exists_fields habsolute
    have hsegments := meaningfulSegments_of_fields htold hundivided
    rw [hsegments] at hfaults hdepth ⊢
    rw [List.length_map] at hdepth
    simp only [List.map_map, Function.comp_def, String.ofList_toList, List.map_id']
    refine ⟨hprintable, ⟨fields, hne, htold, fun field hmem => ⟨hundivided field hmem, ?_⟩, rfl⟩,
      fun segment hmem => ?_, hdepth⟩
    · -- The field that leads upwards says something, so that reading looks at it.
      rintro rfl
      exact (hfaults _ (List.mem_map_of_mem (List.mem_filter.2 ⟨hmem, by decide⟩))).1 rfl
    · rw [Text.length_encode]
      exact (hfaults _ (List.mem_map_of_mem hmem)).2
  · rintro ⟨hprintable, ⟨fields, hne, htold, hfields, hsegments⟩, hshort, hshallow⟩
    have hmeaning := meaningfulSegments_of_fields htold fun field hmem => (hfields field hmem).1
    rw [hmeaning, ← hsegments]
    refine ⟨hprintable, ?_, fun segment hmem => ?_, ?_, ?_⟩
    · obtain ⟨field, rest, rfl⟩ := List.exists_cons_of_ne_nil hne
      rw [htold]
      rfl
    · obtain ⟨field, hfield, rfl⟩ := List.mem_map.1 hmem
      refine ⟨fun hup => ?_, ?_⟩
      · rw [hsegments] at hfield
        exact (hfields field (List.mem_filter.1 hfield).1).2 (String.toList_inj.1 hup)
      · rw [← Text.length_encode]
        exact hshort field hfield
    · rw [List.length_map]
      exact hshallow
    · simp

theorem Spells.unique {first second : List String} (h : Spells path first)
    (h' : Spells path second) : first = second := by
  have hfirst : parse path = .ok ⟨first⟩ := parse_eq_ok_iff_spells.2 h
  have hsecond : parse path = .ok ⟨second⟩ := parse_eq_ok_iff_spells.2 h'
  rw [hfirst] at hsecond
  exact congrArg segments (Except.ok.inj hsecond)

/-! ## Canonical forms -/

theorem render_eq (p : VolumePath) : p.render = "/" ++ "/".intercalate p.segments := by
  rw [← String.toList_inj, toList_render, String.toList_append, String.toList_intercalate]
  rfl

/-- The text is the canonical form of the path with these segments. -/
structure IsCanonical (path : String) (segments : List String) : Prop where
  spells : Spells path segments
  canonical : path = "/" ++ "/".intercalate segments

theorem isCanonical_of_parse (h : parse path = .ok p) : IsCanonical p.render p.segments where
  spells := parse_eq_ok_iff_spells.1 (parse_render h)
  canonical := render_eq p

theorem normalize_eq_ok_iff : normalize path = .ok normal ↔
    ∃ segments, Spells path segments ∧ normal = "/" ++ "/".intercalate segments := by
  constructor
  · intro h
    obtain ⟨p, hparse, rfl⟩ := exists_parse_of_normalize h
    exact ⟨p.segments, parse_eq_ok_iff_spells.1 hparse, render_eq p⟩
  · rintro ⟨segments, hspells, rfl⟩
    rw [normalize_of_parse (parse_eq_ok_iff_spells (p := ⟨segments⟩).2 hspells), render_eq]

theorem isValid_iff : isValid path = true ↔ ∃ normal, normalize path = .ok normal := by
  unfold isValid
  cases normalize path with
  | error error => simp [Except.isOk, Except.toBool]
  | ok normal => simp [Except.isOk, Except.toBool]

theorem segments_eq_of_normalize_eq {first second : List String} (hpath : Spells path first)
    (hother : Spells other second) (h : normalize path = normalize other) : first = second := by
  have hfirst : parse path = .ok ⟨first⟩ := parse_eq_ok_iff_spells.2 hpath
  have hsecond : parse other = .ok ⟨second⟩ := parse_eq_ok_iff_spells.2 hother
  rw [normalize_of_parse hfirst, normalize_of_parse hsecond] at h
  have hcanonical : Spells (render ⟨first⟩) first :=
    parse_eq_ok_iff_spells.1 (parse_render hfirst)
  rw [Except.ok.inj h] at hcanonical
  exact hcanonical.unique (parse_eq_ok_iff_spells.1 (parse_render hsecond))

/-- A text has a canonical form exactly when it spells some segments, and this is a slash and the
segments with single slashes between them. A canonical form is its own, two texts have the same one
exactly when they spell the same segments, and the two tests for usable paths say whether there is
one. -/
theorem normalize_exact (path other : String) :
    (∀ normal, normalize path = .ok normal ↔
      ∃ segments, Spells path segments ∧ normal = "/" ++ "/".intercalate segments) ∧
    (∀ normal, normalize path = .ok normal → normalize normal = .ok normal) ∧
    (∀ first second, Spells path first → Spells other second →
      (normalize path = normalize other ↔ first = second)) ∧
    (isValid path = true ↔ ∃ normal, normalize path = .ok normal) ∧
    (isValidOption (some path) = true ↔ ∃ normal, normalize path = .ok normal) ∧
    isValidOption none = false := by
  refine ⟨fun normal => normalize_eq_ok_iff, fun normal => normalize_of_normalize,
    fun first second hpath hother => ⟨segments_eq_of_normalize_eq hpath hother, ?_⟩, isValid_iff,
    isValid_iff, rfl⟩
  rintro rfl
  rw [normalize_eq_ok_iff.2 ⟨first, hpath, rfl⟩, normalize_eq_ok_iff.2 ⟨first, hother, rfl⟩]

-- A segment of blanks says something.
example : normalize "//a/ /./b.c/" = .ok "/a/ /b.c" := by decide

end VolumeStore.VolumePath
