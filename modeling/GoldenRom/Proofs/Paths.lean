import GoldenRom.Files.Suite

/-!
# Tests and their siblings

A path is the path of a test if its file name is a stem followed by `.test`, whatever segments
without a meaning stand behind it.  The baseline of a test has the same segments in front, and
in place of the file name the same stem followed by `.expected`.  The one stem for which this
fails is a single dot.

## Main definitions

* `Path.IsProper`: the segments that name an entry of a directory.

## Main results

* `Path.isTest_iff`: the paths of tests by their segments.
* `Path.segments_baseline_of_filePlace?`, `Path.segments_baseline`: baselines by their segments.
* `Path.exists_segments_join`: joining puts one segment behind others.
-/

namespace GoldenRom

/-! ## Stems and extensions -/

theorem cutAtLastDot_eq_none_iff {name : List Char} :
    cutAtLastDot name = none ↔ '.' ∉ name := by
  induction name with
  | nil => simp [cutAtLastDot]
  | cons c rest ih =>
      rw [cutAtLastDot, List.mem_cons, not_or, ← ih]
      cases hcut : cutAtLastDot rest with
      | none => simp [eq_comm]
      | some cut => simp

/-- A name is cut at its last dot, so no dot stands behind the cut. -/
theorem cutAtLastDot_eq_some_iff {name before behind : List Char} :
    cutAtLastDot name = some (before, behind) ↔ name = before ++ '.' :: behind ∧
      '.' ∉ behind := by
  induction name generalizing before with
  | nil => simp [cutAtLastDot]
  | cons c rest ih =>
      constructor
      · intro hcut
        rw [cutAtLastDot] at hcut
        cases hrest : cutAtLastDot rest with
        | none =>
            have hplain := cutAtLastDot_eq_none_iff.1 hrest
            simp only [hrest, Option.ite_none_right_eq_some, Option.some.injEq,
              Prod.mk.injEq] at hcut
            obtain ⟨rfl, rfl, rfl⟩ := hcut
            exact ⟨rfl, hplain⟩
        | some cut =>
            obtain ⟨before', behind'⟩ := cut
            simp only [hrest, Option.some.injEq, Prod.mk.injEq] at hcut
            obtain ⟨rfl, rfl⟩ := hcut
            obtain ⟨rfl, hplain⟩ := ih.1 hrest
            exact ⟨rfl, hplain⟩
      · rintro ⟨hname, hplain⟩
        cases before with
        | nil =>
            obtain ⟨rfl, rfl⟩ := List.cons_eq_cons.1 hname
            rw [cutAtLastDot, cutAtLastDot_eq_none_iff.2 hplain, if_pos rfl]
        | cons d before =>
            obtain ⟨rfl, hrest⟩ := List.cons_eq_cons.1 hname
            rw [cutAtLastDot, ih.2 ⟨hrest, hplain⟩]

/-- A stem that is not empty and an extension without a dot are found again in the name that
they form. -/
theorem stemAndExtension_append {stem extension : String} (hstem : stem ≠ "")
    (hextension : '.' ∉ extension.toList) :
    stemAndExtension (stem ++ "." ++ extension) = (stem, some extension) := by
  have hcut : cutAtLastDot (stem ++ "." ++ extension).toList =
      some (stem.toList, extension.toList) := by
    refine cutAtLastDot_eq_some_iff.2 ⟨?_, hextension⟩
    simp
  cases hlist : stem.toList with
  | nil => exact absurd (String.toList_inj.1 hlist) hstem
  | cons c rest =>
      rw [hlist] at hcut
      simp only [stemAndExtension, hcut]
      rw [← hlist, String.ofList_toList, String.ofList_toList]

theorem eq_of_stemAndExtension {name stem extension : String}
    (hname : stemAndExtension name = (stem, some extension)) :
    stem ≠ "" ∧ name = stem ++ "." ++ extension := by
  rw [stemAndExtension] at hname
  split at hname
  · cases hname
  · cases hname
  · rename_i before behind hempty hcut
    obtain ⟨hstem, hextension⟩ := Prod.mk.inj hname
    obtain rfl := Option.some.inj hextension
    subst hstem
    refine ⟨fun hnil => hempty ?_, String.toList_inj.1 ?_⟩
    · rw [← String.toList_ofList (l := before), hnil]
      rfl
    · rw [(cutAtLastDot_eq_some_iff.1 hcut).1]
      simp

/-- A name has no extension, and then it is its own stem, or it is a stem, a dot and an
extension without a dot. -/
theorem stemAndExtension_cases (name : String) :
    stemAndExtension name = (name, none) ∨
      ∃ stem extension, stemAndExtension name = (stem, some extension) ∧
        '.' ∉ extension.toList ∧
        name = stem ++ "." ++ extension := by
  cases hcut : cutAtLastDot name.toList with
  | none => exact Or.inl (by simp [stemAndExtension, hcut])
  | some cut =>
      obtain ⟨before, behind⟩ := cut
      cases before with
      | nil => exact Or.inl (by simp [stemAndExtension, hcut])
      | cons c before =>
          have hname : stemAndExtension name = (String.ofList (c :: before),
              some (String.ofList behind)) := by
            simp [stemAndExtension, hcut]
          refine Or.inr ⟨_, _, hname, ?_, (eq_of_stemAndExtension hname).2⟩
          rw [String.toList_ofList]
          exact (cutAtLastDot_eq_some_iff.1 hcut).2

theorem slash_not_mem_stem {name : String} (hslash : '/' ∉ name.toList) :
    '/' ∉ (stemAndExtension name).1.toList := by
  obtain hname | ⟨stem, extension, hname, -, rfl⟩ := stemAndExtension_cases name
  · rwa [hname]
  · rw [hname]
    simp only [String.toList_append, List.mem_append, not_or] at hslash
    exact hslash.1.1

namespace Path

/-! ## Segments -/

theorem segments_ne_nil (p : Path) : p.segments ≠ [] := by
  rw [segments, Ne, List.map_eq_nil_iff]
  exact List.splitOn_ne_nil '/' p.text.toList

theorem not_mem_of_mem_splitOn {α : Type} [BEq α] [LawfulBEq α] {a : α} {list part : List α}
    (hmem : part ∈ list.splitOn a) : a ∉ part := by
  induction list generalizing part with
  | nil =>
      rw [List.splitOn_nil, List.mem_singleton] at hmem
      subst hmem
      exact List.not_mem_nil
  | cons b rest ih =>
      rw [List.splitOn_cons_eq_if_modifyHead] at hmem
      split at hmem
      · rcases List.mem_cons.1 hmem with rfl | hrest
        · exact List.not_mem_nil
        · exact ih hrest
      · rename_i hother
        cases hsplit : rest.splitOn a with
        | nil => exact absurd hsplit (List.splitOn_ne_nil a rest)
        | cons first others =>
            rw [hsplit, List.modifyHead_cons] at hmem
            rcases List.mem_cons.1 hmem with rfl | hothers
            · rw [List.mem_cons, not_or]
              refine ⟨fun heq => hother (beq_iff_eq.2 heq.symm), ih ?_⟩
              rw [hsplit]
              exact List.mem_cons_self
            · refine ih ?_
              rw [hsplit]
              exact List.mem_cons_of_mem first hothers

theorem slash_not_mem_of_mem_segments {p : Path} {segment : String}
    (hmem : segment ∈ p.segments) : '/' ∉ segment.toList := by
  obtain ⟨part, hpart, rfl⟩ := List.mem_map.1 hmem
  rw [String.toList_ofList]
  exact not_mem_of_mem_splitOn hpart

theorem slash_not_mem_of_segments {p : Path} {front : List String} {name : String}
    (hsegments : p.segments = front ++ [name]) : '/' ∉ name.toList := by
  refine slash_not_mem_of_mem_segments (p := p) ?_
  rw [hsegments]
  exact List.mem_append_right front List.mem_cons_self

/-- Segments without a slash, once joined, are found again. -/
theorem segments_ofSegments {segments : List String} (hne : segments ≠ [])
    (hslash : ∀ segment ∈ segments, '/' ∉ segment.toList) :
    (ofSegments segments).segments = segments := by
  have hlists : ∀ list ∈ segments.map String.toList, '/' ∉ list := by
    intro list hmem
    obtain ⟨segment, hsegment, rfl⟩ := List.mem_map.1 hmem
    exact hslash segment hsegment
  have hsplit : ("/".intercalate segments).toList.splitOn '/' = segments.map String.toList := by
    rw [String.toList_intercalate]
    exact List.splitOn_intercalate '/' hlists (fun hnil => hne (List.map_eq_nil_iff.1 hnil))
  rw [Path.segments, ofSegments, hsplit, List.map_map]
  exact (List.map_congr_left fun segment _ => String.ofList_toList).trans (List.map_id _)

/-- Paths with the same segments are the same. -/
theorem eq_of_segments_eq {p q : Path} (heq : p.segments = q.segments) : p = q := by
  rw [← ofSegments_segments p, heq, ofSegments_segments]

/-- A path is absolute if it begins with an empty segment that is not its only one. -/
theorem isAbsolute_iff {p : Path} :
    p.isAbsolute = true ↔ ∃ rest, rest ≠ [] ∧ p.segments = "" :: rest := by
  rw [isAbsolute, segments, beq_iff_eq]
  cases p.text.toList with
  | nil => simp [String.ofList_nil]
  | cons c rest =>
      rw [List.splitOn_cons_eq_if_modifyHead]
      by_cases hslash : c = '/'
      · subst hslash
        simp [List.splitOn_ne_nil]
      · cases hsplit : rest.splitOn '/' with
        | nil => exact absurd hsplit (List.splitOn_ne_nil '/' rest)
        | cons first others => simp [hslash]

/-- Where a path starts does not depend on its last segment. -/
theorem isAbsolute_eq_of_segments {p q : Path} {front : List String} {name other : String}
    (hp : p.segments = front ++ [name]) (hq : q.segments = front ++ [other]) :
    p.isAbsolute = q.isAbsolute := by
  rw [Bool.eq_iff_iff, isAbsolute_iff, isAbsolute_iff, hp, hq]
  cases front with
  | nil => simp
  | cons first front => simp

/-- Joining puts the name behind the segments of a path, or in place of an empty last one. -/
theorem exists_segments_join (p : Path) {name : String} (hslash : '/' ∉ name.toList) :
    ∃ front, (p.join name).segments = front ++ [name] ∧
      (p.segments = front ∨ p.segments = front ++ [""]) := by
  have hname : name.toList.splitOn '/' = [name.toList] := List.splitOn_eq_singleton hslash
  have hback : String.ofList name.toList = name := String.ofList_toList
  rw [segments, segments, join]
  split
  · rename_i hlast
    rw [List.getLast?_eq_none_iff] at hlast
    refine ⟨[], ?_, Or.inr ?_⟩
    · simp [hlast, hname, hback]
    · simp [hlast]
  · rename_i hlast
    obtain ⟨init, hinit⟩ := List.getLast?_eq_some_iff.1 hlast
    refine ⟨(init.splitOn '/').map String.ofList, ?_, Or.inr ?_⟩
    · simp [hinit, hname, hback, List.splitOn_append_cons_self]
    · simp [hinit, List.splitOn_append_cons_self]
  · refine ⟨_, ?_, Or.inl rfl⟩
    simp [hname, hback, List.splitOn_append_cons_self]

/-- What is put behind a text that has a last character leaves its first one alone. -/
theorem isAbsolute_append {text : String} {c : Char} (hlast : text.toList.getLast? = some c)
    (more : String) : isAbsolute ⟨text ++ more⟩ = isAbsolute ⟨text⟩ := by
  cases htext : text.toList with
  | nil =>
      rw [htext] at hlast
      cases hlast
  | cons first rest =>
      rw [isAbsolute, isAbsolute, String.toList_append, htext]
      rfl

/-- A joined path starts where the path does. -/
theorem isAbsolute_join (p : Path) {name : String} (hslash : '/' ∉ name.toList) :
    (p.join name).isAbsolute = p.isAbsolute := by
  rw [join]
  split
  · rename_i hlast
    rw [List.getLast?_eq_none_iff] at hlast
    rw [isAbsolute, isAbsolute, String.toList_append, hlast, List.nil_append]
    cases hname : name.toList with
    | nil => rfl
    | cons c rest =>
        rw [hname, List.mem_cons, not_or] at hslash
        simp [Ne.symm hslash.1]
  · rename_i hlast
    exact isAbsolute_append hlast name
  · rename_i hlast
    rw [String.append_assoc]
    exact isAbsolute_append hlast ("/" ++ name)

/-! ## File names -/

/-- A segment that names an entry of a directory. -/
def IsProper (segment : String) : Prop :=
  isIdle segment = false ∧ segment ≠ ".."

instance (segment : String) : Decidable (IsProper segment) :=
  inferInstanceAs (Decidable (_ ∧ _))

theorem filePlace?_eq_some_iff {p : Path} {place : FilePlace} :
    p.filePlace? = some place ↔
      p.segments = place.front ++ place.name :: place.behind ∧ IsProper place.name ∧
        ∀ segment ∈ place.behind, isIdle segment = true := by
  obtain ⟨front, name, behind⟩ := place
  rw [filePlace?]
  constructor
  · intro hplace
    have hwhole : p.segments.reverse.takeWhile isIdle ++ p.segments.reverse.dropWhile isIdle =
        p.segments.reverse :=
      List.takeWhile_append_dropWhile
    have hhead := List.head?_dropWhile_not isIdle p.segments.reverse
    cases hdrop : p.segments.reverse.dropWhile isIdle with
    | nil => simp [hdrop] at hplace
    | cons last others =>
        simp only [hdrop, Option.ite_none_left_eq_some, Option.some.injEq,
          FilePlace.mk.injEq] at hplace
        simp only [hdrop, List.head?_cons] at hhead
        obtain ⟨hup, rfl, rfl, rfl⟩ := hplace
        refine ⟨?_, ⟨hhead, hup⟩, fun segment hmem => ?_⟩
        · rw [hdrop] at hwhole
          have hforwards := congrArg List.reverse hwhole
          rw [List.reverse_append, List.reverse_cons, List.append_assoc, List.reverse_reverse]
            at hforwards
          exact hforwards.symm
        · exact List.all_eq_true.1 List.all_takeWhile segment (List.mem_reverse.1 hmem)
  · rintro ⟨hsegments, ⟨hbusy, hup⟩, hidle⟩
    have hreverse : p.segments.reverse = behind.reverse ++ name :: front.reverse := by
      simp [hsegments]
    have hidle' : ∀ segment ∈ behind.reverse, isIdle segment = true :=
      fun segment hmem => hidle segment (List.mem_reverse.1 hmem)
    simp [hreverse, List.dropWhile_append_of_pos hidle', List.takeWhile_append_of_pos hidle',
      hbusy, hup]

theorem isProper_of_getLast? {name : String} {c : Char}
    (hlast : name.toList.getLast? = some c) (hc : c ≠ '.') : IsProper name := by
  have hne : ∀ other : String, other.toList.getLast? ≠ some c → name ≠ other := by
    rintro other hother rfl
    exact hother hlast
  have hempty : name ≠ "" := hne "" (by simp)
  have hdot : name ≠ "." := hne "." (by simpa using Ne.symm hc)
  have hup : name ≠ ".." := hne ".." (by simpa using Ne.symm hc)
  exact ⟨by simp [isIdle, hempty, hdot], hup⟩

theorem isProper_append_test (stem : String) : IsProper (stem ++ ".test") :=
  isProper_of_getLast? (c := 't') (by simp) (by decide)

theorem isProper_append_expected (stem : String) : IsProper (stem ++ ".expected") :=
  isProper_of_getLast? (c := 'd') (by simp) (by decide)

theorem stemAndExtension_append_test {stem : String} (hstem : stem ≠ "") :
    stemAndExtension (stem ++ ".test") = (stem, some testExtension) := by
  have hname : stemAndExtension (stem ++ "." ++ "test") = (stem, some "test") :=
    stemAndExtension_append hstem (by decide)
  rwa [String.append_assoc] at hname

/-- The paths of tests by their segments. -/
theorem isTest_iff {p : Path} :
    p.isTest = true ↔ ∃ front stem behind, stem ≠ "" ∧
      p.segments = front ++ (stem ++ ".test") :: behind ∧
      ∀ segment ∈ behind, isIdle segment = true := by
  rw [isTest, beq_iff_eq, extension?, fileName?, Option.bind_map, Option.bind_eq_some_iff]
  constructor
  · rintro ⟨⟨front, name, behind⟩, hplace, hextension⟩
    obtain ⟨hsegments, -, hidle⟩ := filePlace?_eq_some_iff.1 hplace
    have hcut : stemAndExtension name = ((stemAndExtension name).1, some testExtension) :=
      Prod.ext rfl hextension
    obtain ⟨hstem, hname⟩ := eq_of_stemAndExtension hcut
    rw [String.append_assoc] at hname
    refine ⟨front, (stemAndExtension name).1, behind, hstem, ?_, hidle⟩
    exact hsegments.trans (congrArg (fun name => front ++ name :: behind) hname)
  · rintro ⟨front, stem, behind, hstem, hsegments, hidle⟩
    refine ⟨⟨front, stem ++ ".test", behind⟩, ?_, ?_⟩
    · exact filePlace?_eq_some_iff.2 ⟨hsegments, isProper_append_test stem, hidle⟩
    · exact congrArg Prod.snd (stemAndExtension_append_test hstem)

/-- A path whose last segment is a proper name has this name as its file name. -/
theorem filePlace?_of_segments {p : Path} {front : List String} {name : String}
    (hsegments : p.segments = front ++ [name]) (hname : IsProper name) :
    p.filePlace? = some ⟨front, name, []⟩ :=
  filePlace?_eq_some_iff.2 ⟨hsegments, hname, by simp⟩

theorem fileName?_of_segments {p : Path} {front : List String} {name : String}
    (hsegments : p.segments = front ++ [name]) (hname : IsProper name) :
    p.fileName? = some name := by
  rw [fileName?, filePlace?_of_segments hsegments hname]
  rfl

theorem isTest_iff_of_segments {p : Path} {front : List String} {name : String}
    (hsegments : p.segments = front ++ [name]) (hname : IsProper name) :
    p.isTest = true ↔ ∃ stem, stem ≠ "" ∧ name = stem ++ ".test" := by
  rw [isTest_iff]
  constructor
  · rintro ⟨front', stem, behind, hstem, hsegments', hidle⟩
    have hplace : p.filePlace? = some ⟨front', stem ++ ".test", behind⟩ :=
      filePlace?_eq_some_iff.2 ⟨hsegments', isProper_append_test stem, hidle⟩
    rw [filePlace?_of_segments hsegments hname] at hplace
    exact ⟨stem, hstem, congrArg FilePlace.name (Option.some.inj hplace)⟩
  · rintro ⟨stem, hstem, rfl⟩
    exact ⟨front, stem, [], hstem, hsegments, by simp⟩

/-- A path that ends in the name of a baseline is not the path of a test. -/
theorem isTest_eq_false_of_segments {p : Path} {front : List String} {stem : String}
    (hsegments : p.segments = front ++ [stem ++ ".expected"]) : p.isTest = false := by
  rw [Bool.eq_false_iff]
  intro htest
  obtain ⟨stem', -, hname⟩ :=
    (isTest_iff_of_segments hsegments (isProper_append_expected stem)).1 htest
  have hlast := congrArg (fun name => name.toList.getLast?) hname
  simp at hlast

theorem slash_not_mem_append_expected {stem : String}
    (hslash : '/' ∉ (stem ++ ".test").toList) :
    '/' ∉ (stem ++ ".expected").toList := by
  simp at hslash ⊢
  exact hslash

theorem isTest_join_expected (q : Path) {stem : String}
    (hslash : '/' ∉ (stem ++ ".test").toList) :
    (q.join (stem ++ ".expected")).isTest = false := by
  obtain ⟨front, hsegments, -⟩ := exists_segments_join q (slash_not_mem_append_expected hslash)
  exact isTest_eq_false_of_segments hsegments

/-! ## Baselines -/

theorem segments_ofSegments_front {p : Path} {front rest : List String} {other : String}
    (hsegments : p.segments = front ++ rest) (hslash : '/' ∉ other.toList) :
    (ofSegments (front ++ [other])).segments = front ++ [other] := by
  refine segments_ofSegments (by simp) fun segment hmem => ?_
  rcases List.mem_append.1 hmem with hfront | hlast
  · refine slash_not_mem_of_mem_segments (p := p) ?_
    rw [hsegments]
    exact List.mem_append_left rest hfront
  · rwa [List.mem_singleton.1 hlast]

/-- The segments of any baseline. -/
theorem segments_baseline_of_filePlace? {p : Path} {place : FilePlace}
    (hplace : p.filePlace? = some place) :
    p.baseline.segments = place.front ++
      [if (stemAndExtension place.name).1 = "." ∧ place.behind = [] then ".."
        else (stemAndExtension place.name).1 ++ ".expected"] := by
  obtain ⟨hsegments, -, -⟩ := filePlace?_eq_some_iff.1 hplace
  have hname : '/' ∉ place.name.toList := by
    refine slash_not_mem_of_mem_segments (p := p) ?_
    rw [hsegments]
    exact List.mem_append_right place.front List.mem_cons_self
  have hstem : '/' ∉ ((stemAndExtension place.name).1 ++ ".expected").toList := by
    rw [String.toList_append, List.mem_append, not_or]
    exact ⟨slash_not_mem_stem hname, by decide⟩
  rw [baseline, withExtension, hplace]
  dsimp only
  split
  · exact segments_ofSegments_front hsegments (by decide)
  · rw [String.append_assoc]
    exact segments_ofSegments_front hsegments hstem

theorem segments_baseline {p : Path} {front : List String} {stem : String} (hstem : stem ≠ "")
    (hdot : stem ≠ ".") (hsegments : p.segments = front ++ [stem ++ ".test"]) :
    p.baseline.segments = front ++ [stem ++ ".expected"] := by
  rw [segments_baseline_of_filePlace?
    (filePlace?_of_segments hsegments (isProper_append_test stem)),
      stemAndExtension_append_test hstem, if_neg fun h => hdot h.1]

/-- Without its extension the name `..test` goes up, and so does the baseline of such a test. -/
theorem segments_baseline_of_dot {p : Path} {front : List String}
    (hsegments : p.segments = front ++ ["..test"]) :
    p.baseline.segments = front ++ [".."] := by
  have hstem : (stemAndExtension "..test").1 = "." := by decide
  rw [segments_baseline_of_filePlace?
    (filePlace?_of_segments hsegments (isProper_append_test ".")), if_pos ⟨hstem, rfl⟩]

end Path

end GoldenRom
