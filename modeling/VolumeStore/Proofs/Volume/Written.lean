import VolumeStore.Proofs.Text.Fields
import VolumeStore.Volume.Path

/-!
# Written paths

Which texts are read as paths, and which paths have a text that is read as them: those of segments
that a text can hold between two slashes, if there are not too many of them. A segment may be
written behind a path that is not too long already.
-/

namespace VolumeStore.VolumePath

structure IsSegment (segment : List Char) : Prop where
  telling : isTrivialSegment segment = false
  descending : segment ≠ ['.', '.']
  short : Text.byteLength segment ≤ maxNameBytes
  undivided : '/' ∉ segment
  printable : ∀ c ∈ segment, isControl c = false

def IsWritten (p : VolumePath) : Prop :=
  ∃ path, parse path = .ok p

variable {written path name : String} {p : VolumePath} {segment : List Char}
  {segments : List String}

/-! ## Reading -/

theorem segmentError?_eq_none_iff : segmentError? path segment = none ↔
    segment ≠ ['.', '.'] ∧ Text.byteLength segment ≤ maxNameBytes := by
  unfold segmentError?
  split
  next hup => simp [hup]
  next hup => split <;> simp_all

theorem parse_eq_ok_iff : parse path = .ok p ↔
    path.toList.any isControl = false ∧ path.toList.head? = some '/' ∧
      (∀ segment ∈ meaningfulSegments path,
        segment ≠ ['.', '.'] ∧ Text.byteLength segment ≤ maxNameBytes) ∧
      (meaningfulSegments path).length ≤ maxDepth ∧
      p = ⟨(meaningfulSegments path).map String.ofList⟩ := by
  have hfaults : (meaningfulSegments path).findSome? (segmentError? path) = none ↔
      ∀ segment ∈ meaningfulSegments path,
        segment ≠ ['.', '.'] ∧ Text.byteLength segment ≤ maxNameBytes := by
    simp only [List.findSome?_eq_none_iff, segmentError?_eq_none_iff]
  -- A text that begins with a slash is not blank.
  have hblank : path.toList.head? = some '/' → Text.isAllBlank path.toList = false := by
    intro hhead
    obtain ⟨rest, hrest⟩ := List.head?_eq_some_iff.1 hhead
    rw [hrest, Text.isAllBlank, List.all_cons, show Text.isBlank '/' = false by decide,
      Bool.false_and]
  rw [← hfaults]
  constructor
  · intro h
    unfold parse at h
    dsimp only at h
    split at h
    · cases h
    split at h
    · cases h
    next hcontrol =>
      split at h
      · cases h
      next hfind =>
        split at h
        · cases h
        next hhead =>
          split at h
          · cases h
          next hdepth =>
            cases h
            exact ⟨by simpa using hcontrol, Decidable.not_not.1 hhead, hfind,
              Nat.not_lt.1 hdepth, rfl⟩
  · rintro ⟨hcontrol, hhead, hfind, hdepth, rfl⟩
    unfold parse
    simp [hblank hhead, hcontrol, hfind, hhead, Nat.not_lt.2 hdepth]

theorem length_segments_le (h : parse path = .ok p) : p.segments.length ≤ maxDepth := by
  obtain ⟨-, -, -, hdepth, rfl⟩ := parse_eq_ok_iff.1 h
  rwa [List.length_map]

theorem isSegment_of_parse (h : parse path = .ok p) :
    ∀ segment ∈ p.segments, IsSegment segment.toList := by
  obtain ⟨hcontrol, -, hfaults, -, rfl⟩ := parse_eq_ok_iff.1 h
  intro segment hmem
  obtain ⟨field, hfield, rfl⟩ := List.mem_map.1 hmem
  obtain ⟨hup, hlong⟩ := hfaults field hfield
  obtain ⟨hsplit, htelling⟩ := List.mem_filter.1 hfield
  rw [String.toList_ofList]
  refine ⟨by simpa using htelling, hup, hlong, Text.not_mem_of_mem_splitOn hsplit, fun c hc => ?_⟩
  have hin := Text.subset_of_mem_splitOn hsplit hc
  rw [List.any_eq_false] at hcontrol
  simpa using hcontrol c hin

/-! ## Writing -/

theorem parse_append (h : parse path = .ok p) (hname : IsSegment name.toList)
    (hdepth : p.segments.length < maxDepth) :
    parse (path ++ "/" ++ name) = .ok ⟨p.segments ++ [name]⟩ := by
  obtain ⟨hcontrol, hhead, hfaults, -, rfl⟩ := parse_eq_ok_iff.1 h
  have htext : (path ++ "/" ++ name).toList = path.toList ++ '/' :: name.toList := by simp
  have hsegments : meaningfulSegments (path ++ "/" ++ name) =
      meaningfulSegments path ++ [name.toList] := by
    rw [meaningfulSegments, htext, List.splitOn_append_cons_self,
      List.splitOn_eq_singleton hname.undivided, List.filter_append,
      List.filter_cons_of_pos (by simp [hname.telling]), List.filter_nil]
    rfl
  have hprintable : name.toList.any isControl = false :=
    List.any_eq_false.2 fun c hc => by simp [hname.printable c hc]
  -- The conditions on a path hold of the old one and of the new segment.
  rw [parse_eq_ok_iff, hsegments, htext]
  refine ⟨?_, ?_, fun segment hmem => ?_, ?_, by simp⟩
  · rw [List.any_append, List.any_cons, hcontrol, hprintable]
    rfl
  · rw [List.head?_append, hhead]
    rfl
  · rcases List.mem_append.1 hmem with hmem | hmem
    · exact hfaults segment hmem
    · rw [List.mem_singleton.1 hmem]
      exact ⟨hname.descending, hname.short⟩
  · rw [List.length_append, List.length_singleton]
    rw [List.length_map] at hdepth
    exact hdepth

theorem isWritten_iff : p.IsWritten ↔
    (∀ segment ∈ p.segments, IsSegment segment.toList) ∧ p.segments.length ≤ maxDepth := by
  constructor
  · rintro ⟨path, h⟩
    exact ⟨isSegment_of_parse h, length_segments_le h⟩
  · rintro ⟨h, hdepth⟩
    obtain ⟨segments⟩ := p
    -- A text for the path, one segment behind the other.
    induction segments using List.reverseRecOn with
    | nil => exact ⟨"/", rfl⟩
    | append_singleton above last ih =>
      have hlength : above.length < maxDepth := by
        rwa [List.length_append, List.length_singleton] at hdepth
      obtain ⟨path, hpath⟩ := ih (fun segment hmem => h segment (List.mem_append_left _ hmem))
        (Nat.le_of_lt hlength)
      exact ⟨_, parse_append hpath (h last (by simp)) hlength⟩

theorem IsWritten.of_append {above rest : List String} (h : IsWritten ⟨above ++ rest⟩) :
    IsWritten ⟨above⟩ := by
  obtain ⟨hsegments, hdepth⟩ := isWritten_iff.1 h
  refine isWritten_iff.2 ⟨fun segment hmem => hsegments _ (List.mem_append_left _ hmem), ?_⟩
  exact Nat.le_trans (by simp) hdepth

/-! ## Canonical forms -/

theorem toList_render (p : VolumePath) :
    p.render.toList = '/' :: List.intercalate ['/'] (p.segments.map (·.toList)) := by
  rw [render, String.toList_ofList]

theorem isControl_of_mem_render (h : parse path = .ok p) {c : Char} (hc : c ∈ p.render.toList) :
    isControl c = false := by
  rw [toList_render] at hc
  rcases List.mem_cons.1 hc with rfl | hc
  · decide
  rcases Text.mem_intercalate hc with rfl | ⟨field, hmem, hc⟩
  · decide
  · obtain ⟨segment, hsegment, rfl⟩ := List.mem_map.1 hmem
    exact (isSegment_of_parse h segment hsegment).printable c hc

theorem meaningfulSegments_render (h : parse path = .ok p) :
    meaningfulSegments p.render = p.segments.map (·.toList) := by
  have hsplit : p.render.toList.splitOn '/' =
      [] :: (List.intercalate ['/'] (p.segments.map (·.toList))).splitOn '/' := by
    rw [toList_render, ← List.nil_append ('/' :: _), List.splitOn_append_cons_self]
    rfl
  rw [meaningfulSegments, hsplit, List.filter_cons_of_neg (by simp [isTrivialSegment])]
  by_cases hne : p.segments = []
  · rw [hne]
    rfl
  · rw [List.splitOn_intercalate _ (fun field hmem => ?_) (by simpa using hne)]
    · refine List.filter_eq_self.2 fun field hmem => ?_
      obtain ⟨segment, hsegment, rfl⟩ := List.mem_map.1 hmem
      rw [(isSegment_of_parse h segment hsegment).telling]
      rfl
    · obtain ⟨segment, hsegment, rfl⟩ := List.mem_map.1 hmem
      exact (isSegment_of_parse h segment hsegment).undivided

theorem normalize_of_parse (h : parse path = .ok p) : normalize path = .ok p.render := by
  rw [normalize, h]
  rfl

theorem parse_render (h : parse path = .ok p) : parse p.render = .ok p := by
  rw [parse_eq_ok_iff, meaningfulSegments_render h, toList_render]
  refine ⟨?_, rfl, fun field hmem => ?_, ?_, by simp⟩
  · rw [← toList_render, List.any_eq_false]
    intro c hc
    rw [isControl_of_mem_render h hc]
    exact Bool.false_ne_true
  · obtain ⟨segment, hsegment, rfl⟩ := List.mem_map.1 hmem
    have hwritten := isSegment_of_parse h segment hsegment
    exact ⟨hwritten.descending, hwritten.short⟩
  · rw [List.length_map]
    exact length_segments_le h

theorem eq_of_render_eq {q : VolumePath} (hp : parse path = .ok p) (hq : parse written = .ok q)
    (h : p.render = q.render) : p = q := by
  have hparse := parse_render hp
  rw [h, parse_render hq] at hparse
  exact (Except.ok.inj hparse).symm

theorem exists_parse_of_normalize (h : normalize written = .ok path) :
    ∃ p, parse written = .ok p ∧ p.render = path := by
  unfold normalize at h
  cases hparse : parse written with
  | error error =>
    rw [hparse] at h
    cases h
  | ok p =>
    rw [hparse] at h
    cases h
    exact ⟨p, rfl, rfl⟩

theorem normalize_of_normalize (h : normalize written = .ok path) : normalize path = .ok path := by
  obtain ⟨p, hparse, rfl⟩ := exists_parse_of_normalize h
  exact normalize_of_parse (parse_render hparse)

theorem notMem_of_normalize (h : normalize written = .ok path) {c : Char}
    (hc : isControl c = true) : c ∉ path.toList := by
  obtain ⟨p, hparse, rfl⟩ := exists_parse_of_normalize h
  intro hmem
  rw [isControl_of_mem_render hparse hmem] at hc
  cases hc

end VolumeStore.VolumePath
