import Mathlib.Data.List.Basic
import SourceCoverage.Proofs.Octets
import SourceCoverage.Proofs.Path
import SourceCoverage.SourceFile

namespace SourceCoverage

open SourceCoverage.Path

/-- A name is divided into parts of its own characters, and its ending has no dot. A name that is not divided has no
dot but in front. -/
theorem divideName_spec (name : List Char) :
    (divideName name).1 ⊆ name ∧ (∀ ending, (divideName name).2 = some ending → ending ⊆ name ∧ '.' ∉ ending) ∧
      ((divideName name).2 = none → (divideName name).1 = name ∧ '.' ∉ name.tail) := by
  have taken : (name.reverse.takeWhile (· != '.')).reverse ⊆ name := by
    intro c member
    exact List.mem_reverse.mp ((List.takeWhile_sublist _).subset (List.mem_reverse.mp member))
  have noDot : '.' ∉ (name.reverse.takeWhile (· != '.')).reverse := by
    intro member
    simpa using List.all_eq_true.mp List.all_takeWhile _ (List.mem_reverse.mp member)
  have whole : (name.reverse.dropWhile (· != '.')).reverse ++ (name.reverse.takeWhile (· != '.')).reverse = name := by
    rw [← List.reverse_append, List.takeWhile_append_dropWhile, List.reverse_reverse]
  unfold divideName
  split
  · rename_i dot c before divided
    refine ⟨?_, fun ending same => ?_, nofun⟩
    · intro x member
      have inside : x ∈ name.reverse.dropWhile (· != '.') := by
        rw [divided]
        exact List.mem_cons_of_mem _ (List.mem_reverse.mp member)
      exact List.mem_reverse.mp ((List.dropWhile_sublist _).subset inside)
    · cases same
      exact ⟨taken, noDot⟩
  · rename_i short
    refine ⟨List.Subset.refl _, nofun, fun _ => ⟨rfl, ?_⟩⟩
    cases left : name.reverse.dropWhile (· != '.') with
    | nil =>
      rw [left, List.reverse_nil, List.nil_append] at whole
      rw [← whole]
      exact fun member => noDot (List.mem_of_mem_tail member)
    | cons dot before =>
      cases before with
      | nil =>
        rw [left, List.reverse_singleton, List.singleton_append] at whole
        rwa [← whole, List.tail_cons]
      | cons c before => exact absurd left (short dot c before)

namespace SourceFile

variable {workingDirectory : Option Path} {outputDir input p q : Path} {ending ending' : String}

/-- What is written for a source. -/
def written (file : SourceFile) : List Path := [file.output, file.document]

theorem output_mem (file : SourceFile) : file.output ∈ file.written := List.mem_cons_self

theorem document_mem (file : SourceFile) : file.document ∈ file.written := List.mem_cons_of_mem _ List.mem_cons_self

/-- The path by which a source is told from others: as seen from the root, if it can be seen from there. -/
def whole (workingDirectory : Option Path) (input : Path) : Path := (input.absolute? workingDirectory).getD input

/-- The name after which the files of a source are named. -/
def baseName (input : Path) : String := input.fileName?.getD "source"

theorem stem?_getD (input : Path) :
    input.stem?.getD "source" = String.ofList (divideName (baseName input).toList).1 := by
  cases found : input.fileName? with
  | none =>
    rw [stem?, baseName, found]
    decide
  | some name => rw [stem?, baseName, found, Option.map_some, Option.getD_some, Option.getD_some]

theorem extension?_eq (input : Path) : input.extension? =
    (divideName (baseName input).toList).2.map String.ofList := by
  cases found : input.fileName? with
  | none =>
    rw [extension?, baseName, found]
    decide
  | some name => rw [extension?, baseName, found, Option.bind_some, Option.getD_some]

theorem slash_notMem_baseName (input : Path) : '/' ∉ (baseName input).toList := by
  unfold baseName
  cases found : input.fileName? with
  | none => decide
  | some name => exact slash_notMem_fileName found

/-- A path that is not made of dots alone has its name also as seen from the root. -/
theorem fileName?_whole (leads : input.components ≠ [.current]) :
    (whole workingDirectory input).fileName? = input.fileName? := by
  unfold whole
  cases found : input.absolute? workingDirectory with
  | none => rfl
  | some whole =>
    obtain ⟨front, steps, root⟩ := named_absolute? found
    rw [Option.getD_some, fileName?_eq, fileName?_eq, steps]
    by_cases nowhere : named input.text.toList = []
    · rcases cases_of_named_eq_nil nowhere with empty | dots | absolute
      · simp [absolute?, empty] at found
      · exact absurd dots leads
      · rw [root absolute, List.nil_append]
    · rw [List.getLast?_append_of_ne_nil _ nowhere]

theorem length_tag (workingDirectory : Option Path) (input : Path) :
    (tag workingDirectory input).toList.length = 8 := by
  have spelled (width value : Nat) : (Sha256.bigEndian width value).length = width := by
    induction width with
    | zero => rfl
    | succ width ih => exact congrArg (· + 1) ih
  have octets (message : Octets) : (Sha256.hash message).length = 32 := by
    simp [Sha256.hash, spelled]
  rw [tag, String.toList_ofList, List.length_take, Sha256.digest, Octets.length_hex, octets]
  rfl

theorem notMem_tag {c : Char} (noDigit : ∀ n < 16, Octets.hexDigit n ≠ c) (workingDirectory : Option Path)
    (input : Path) : c ∉ (tag workingDirectory input).toList := by
  rw [tag, String.toList_ofList]
  exact fun member => Octets.notMem_hex noDigit _ (List.mem_of_mem_take member)

theorem toList_taggedStem (workingDirectory : Option Path) (input : Path) :
    (taggedStem workingDirectory input).toList =
    (divideName (baseName input).toList).1 ++ '_' :: (tag workingDirectory input).toList := by
  simp [taggedStem, stem?_getD]

theorem tag_eq_of_taggedStem_eq (same : taggedStem workingDirectory p = taggedStem workingDirectory q) :
    tag workingDirectory p = tag workingDirectory q := by
  have spelled := congrArg String.toList same
  rw [toList_taggedStem, toList_taggedStem] at spelled
  have behind := (List.append_inj' spelled (by simp [length_tag])).2
  exact String.toList_inj.mp (List.cons.inj behind).2

/-- A name as planned files have it: without a slash, and with no more than one dot behind an underscore. -/
structure IsPlanned (name : String) : Prop where
  noSlash : '/' ∉ name.toList
  dots : ∃ front back, name.toList = front ++ '_' :: back ∧ back.count '.' ≤ 1

theorem IsPlanned.mark {name : String} (isPlanned : IsPlanned name) : '_' ∈ name.toList := by
  obtain ⟨front, back, spelled, _⟩ := isPlanned.dots
  simp [spelled]

/-- The extension of a path has no slash and no dot. -/
theorem notMem_extension {extension : String} (found : input.extension? = some extension) :
    '/' ∉ extension.toList ∧ '.' ∉ extension.toList := by
  rw [extension?_eq] at found
  obtain ⟨ending, divided, rfl⟩ := Option.map_eq_some_iff.mp found
  obtain ⟨inside, noDot⟩ := (divideName_spec (baseName input).toList).2.1 ending divided
  rw [String.toList_ofList]
  exact ⟨fun member => slash_notMem_baseName input (inside member), noDot⟩

/-- What may stand behind the tag: an extension, or nothing if the source has none. -/
def IsEnding (input : Path) (ending : String) : Prop :=
  (input.extension? = none ∧ ending = "") ∨
    ∃ extension : String, ('/' ∉ extension.toList ∧ '.' ∉ extension.toList) ∧ ending = "." ++ extension

theorem IsEnding.isPlanned (isEnding : IsEnding input ending) (workingDirectory : Option Path) :
    IsPlanned (taggedStem workingDirectory input ++ ending) := by
  have stem : '/' ∉ (divideName (baseName input).toList).1 :=
    fun member => slash_notMem_baseName input ((divideName_spec _).1 member)
  obtain ⟨noSlash, dots⟩ : '/' ∉ ending.toList ∧ ending.toList.count '.' ≤ 1 := by
    rcases isEnding with ⟨_, rfl⟩ | ⟨extension, ⟨noSlash, noDot⟩, rfl⟩
    · decide
    · simp [noSlash, List.count_eq_zero_of_not_mem noDot]
  constructor
  · simp only [String.toList_append, toList_taggedStem, List.mem_append, List.mem_cons, not_or]
    exact ⟨⟨stem, by decide, notMem_tag (by decide) _ _⟩, noSlash⟩
  · refine ⟨(divideName (baseName input).toList).1, (tag workingDirectory input).toList ++ ending.toList, ?_, ?_⟩
    · simp [toList_taggedStem]
    · rw [List.count_append, List.count_eq_zero_of_not_mem (notMem_tag (by decide) _ _), Nat.zero_add]
      exact dots

/-- An output ends like its source. -/
def ownEnding (input : Path) : String :=
  match input.extension? with
  | some extension => "." ++ extension
  | none => ""

theorem isEnding_ownEnding (input : Path) : IsEnding input (ownEnding input) := by
  unfold ownEnding
  split
  · rename_i extension found
    exact Or.inr ⟨extension, notMem_extension found, rfl⟩
  · rename_i none
    exact Or.inl ⟨none, rfl⟩

theorem isEnding_cid (input : Path) : IsEnding input ".cid" := Or.inr ⟨"cid", by decide, by decide⟩

/-- Only a source that is named like a document ends like one. -/
theorem ownEnding_ne_cid (source : input.extension? ≠ some "cid") : ownEnding input ≠ ".cid" := by
  unfold ownEnding
  split
  · rename_i extension found
    intro same
    have extensions : "." ++ extension = "." ++ "cid" := same
    exact source (found.trans (congrArg some ((String.append_right_inj _).mp extensions)))
  · decide

theorem inDirectory_output (workingDirectory : Option Path) (outputDir input : Path) :
    (inDirectory workingDirectory outputDir input).output =
      outputDir.join ⟨taggedStem workingDirectory input ++ ownEnding input⟩ := by
  unfold inDirectory ownEnding
  cases input.extension? <;> simp [String.append_assoc]

theorem inDirectory_document (workingDirectory : Option Path) (outputDir input : Path) :
    (inDirectory workingDirectory outputDir input).document =
      outputDir.join ⟨taggedStem workingDirectory input ++ ".cid"⟩ := by rw [inDirectory]

theorem exists_of_mem_written (own : p ∈ (inDirectory workingDirectory outputDir input).written) :
    ∃ ending, p = outputDir.join ⟨taggedStem workingDirectory input ++ ending⟩ ∧ IsEnding input ending := by
  rcases List.mem_pair.mp own with rfl | rfl
  · exact ⟨ownEnding input, inDirectory_output _ _ _, isEnding_ownEnding input⟩
  · exact ⟨".cid", inDirectory_document _ _ _, isEnding_cid input⟩

/-- Without an extension there is no dot but in front. -/
theorem dot_notMem_tail (bare : input.extension? = none) : '.' ∉ (taggedStem workingDirectory input).toList.tail := by
  rw [extension?_eq, Option.map_eq_none_iff] at bare
  obtain ⟨undivided, noDot⟩ := (divideName_spec _).2.2 bare
  have tagged := notMem_tag (c := '.') (by decide) workingDirectory input
  rw [toList_taggedStem, undivided]
  cases spelled : (baseName input).toList with
  | nil => exact tagged
  | cons c name =>
    rw [spelled, List.tail_cons] at noDot
    simp [noDot, tagged]

theorem dot_mem_tail (workingDirectory : Option Path) (input : Path) (extension : String) :
    '.' ∈ (taggedStem workingDirectory input ++ ("." ++ extension)).toList.tail := by
  have filled : (taggedStem workingDirectory input).toList ≠ [] := by simp [toList_taggedStem]
  rw [String.toList_append, List.tail_append_of_ne_nil filled]
  simp

/-- The last dot divides a name in one way. -/
theorem append_dot_inj {front front' back back' : List Char} (noDot : '.' ∉ back) (noDot' : '.' ∉ back')
    (same : front ++ '.' :: back = front' ++ '.' :: back') : front = front' ∧ back = back' := by
  have nothing {between a b : List Char} (noDot : '.' ∉ a) (split : '.' :: a = between ++ '.' :: b) :
      between = [] := by
    cases between with
    | nil => rfl
    | cons c between =>
      rw [List.cons_append, List.cons.injEq] at split
      simp [split.2] at noDot
  rcases List.append_eq_append_iff.mp same with ⟨between, rfl, behind⟩ | ⟨between, rfl, behind⟩
  · obtain rfl := nothing noDot behind
    exact ⟨(List.append_nil _).symm, (List.cons.inj behind).2⟩
  · obtain rfl := nothing noDot' behind
    exact ⟨List.append_nil _, (List.cons.inj behind).2.symm⟩

/-- A planned name is read in one way only. -/
theorem taggedStem_append_inj (left : IsEnding p ending) (right : IsEnding q ending')
    (same : taggedStem workingDirectory p ++ ending = taggedStem workingDirectory q ++ ending') :
    taggedStem workingDirectory p = taggedStem workingDirectory q ∧ ending = ending' := by
  rcases left with ⟨bare, rfl⟩ | ⟨extension, ⟨_, noDot⟩, rfl⟩ <;>
    rcases right with ⟨bare', rfl⟩ | ⟨extension', ⟨_, noDot'⟩, rfl⟩
  · exact ⟨by simpa using same, rfl⟩
  -- a name that ends with its tag has no dot behind its first character, every other one has
  · have dot := dot_mem_tail workingDirectory q extension'
    rw [← same, String.append_empty] at dot
    exact absurd dot (dot_notMem_tail bare)
  · have dot := dot_mem_tail workingDirectory p extension
    rw [same, String.append_empty] at dot
    exact absurd dot (dot_notMem_tail bare')
  · have spelled : (taggedStem workingDirectory p).toList ++ '.' :: extension.toList =
        (taggedStem workingDirectory q).toList ++ '.' :: extension'.toList := by
      simpa using congrArg String.toList same
    obtain ⟨stems, extensions⟩ := append_dot_inj noDot noDot' spelled
    exact ⟨String.toList_inj.mp stems, by rw [String.toList_inj.mp extensions]⟩

theorem eq_of_agrees_join {name name' : String} (isPlanned : IsPlanned name) (isPlanned' : IsPlanned name')
    (same : (outputDir.join ⟨name⟩).agrees (outputDir.join ⟨name'⟩) = true) : name = name' := by
  have names : (outputDir.join ⟨name⟩).fileName? = (outputDir.join ⟨name'⟩).fileName? := by
    rw [fileName?, fileName?, beq_iff_eq.mp same]
  rw [fileName?_join _ isPlanned.noSlash isPlanned.mark (by decide),
    fileName?_join _ isPlanned'.noSlash isPlanned'.mark (by decide)] at names
  exact Option.some.inj names

/-- Sources that share a file share their tag. -/
theorem tag_eq_of_agrees {a b : Path} (own : a ∈ (inDirectory workingDirectory outputDir p).written)
    (own' : b ∈ (inDirectory workingDirectory outputDir q).written) (same : a.agrees b = true) :
    tag workingDirectory p = tag workingDirectory q := by
  obtain ⟨ending, rfl, isEnding⟩ := exists_of_mem_written own
  obtain ⟨ending', rfl, isEnding'⟩ := exists_of_mem_written own'
  have names := eq_of_agrees_join (isEnding.isPlanned _) (isEnding'.isPlanned _) same
  exact tag_eq_of_taggedStem_eq (taggedStem_append_inj isEnding isEnding' names).1

/-- Unless the source is named like a document, its output and its document are two files. -/
theorem agrees_document_eq_false (source : input.extension? ≠ some "cid") :
    (inDirectory workingDirectory outputDir input).output.agrees
      (inDirectory workingDirectory outputDir input).document = false := by
  rw [inDirectory_output, inDirectory_document, Bool.eq_false_iff]
  intro same
  have names := eq_of_agrees_join ((isEnding_ownEnding input).isPlanned _) ((isEnding_cid input).isPlanned _) same
  exact ownEnding_ne_cid source ((String.append_right_inj _).mp names)

/-- The output depends on the whole path and the name of the source only. -/
theorem output_congr (paths : whole workingDirectory p = whole workingDirectory q) (names : baseName p = baseName q) :
    (inDirectory workingDirectory outputDir p).output = (inDirectory workingDirectory outputDir q).output := by
  have tags : tag workingDirectory p = tag workingDirectory q := by
    unfold whole at paths
    rw [tag, tag, paths]
  simp only [inDirectory, taggedStem, stem?_getD, extension?_eq, names, tags]

theorem distinct_subset (seen : List Path) (files : List SourceFile) : distinct seen files ⊆ files := by
  induction files generalizing seen with
  | nil => exact List.Subset.refl _
  | cons file files ih =>
    unfold distinct
    split_ifs
    · exact List.subset_cons_of_subset _ (ih seen)
    · exact List.cons_subset_cons _ (ih _)

/-- A file is kept only if its output is new. -/
theorem any_eq_false_of_mem_distinct {seen : List Path} {files : List SourceFile} {file : SourceFile}
    (kept : file ∈ distinct seen files) : seen.any file.output.agrees = false := by
  induction files generalizing seen with
  | nil => cases kept
  | cons first files ih =>
    unfold distinct at kept
    split_ifs at kept with old
    · exact ih kept
    · rcases List.mem_cons.mp kept with rfl | later
      · exact Bool.eq_false_iff.mpr old
      · exact (Bool.or_eq_false_iff.mp (ih later)).2

theorem pairwise_distinct (seen : List Path) (files : List SourceFile) :
    (distinct seen files).Pairwise fun f g => g.output.agrees f.output = false := by
  induction files generalizing seen with
  | nil => exact .nil
  | cons file files ih =>
    unfold distinct
    split_ifs
    · exact ih seen
    · refine .cons (fun later kept => ?_) (ih _)
      exact (Bool.or_eq_false_iff.mp (any_eq_false_of_mem_distinct kept)).1

/-- Where the outputs of two sources agree exactly if the sources are the same, the first of them is kept. -/
theorem distinct_map {files : Path → SourceFile} {same : Path → Path → Bool} (seen sources : List Path)
    (agree : ∀ p ∈ sources, ∀ q ∈ seen ++ sources, (files p).output.agrees (files q).output = same p q) :
    distinct (seen.map fun p => (files p).output) (sources.map files) =
      ((sources.filter fun p => !seen.any (same p)).eraseDupsBy same).map files := by
  induction sources generalizing seen with
  | nil => rfl
  | cons p sources ih =>
    have later : ∀ q ∈ sources, ∀ r ∈ p :: seen ++ sources, (files q).output.agrees (files r).output = same q r := by
      intro q inside r member
      refine agree q (List.mem_cons_of_mem _ inside) r ?_
      simpa [or_left_comm, or_assoc] using member
    have asked : (seen.map fun q => (files q).output).any (files p).output.agrees = seen.any (same p) := by
      rw [List.any_map, Bool.eq_iff_iff, List.any_eq_true, List.any_eq_true]
      refine exists_congr fun q => and_congr_right fun inside => ?_
      rw [Function.comp_apply, agree p List.mem_cons_self q (List.mem_append_left _ inside)]
    rw [List.map_cons, distinct, asked]
    cases old : seen.any (same p) with
    | true =>
      rw [if_pos rfl, List.filter_cons_of_neg (by simp [old])]
      exact ih seen fun q inside r member => later q inside r (List.mem_cons_of_mem _ member)
    | false =>
      have both : (fun q => !(p :: seen).any (same q)) =
          fun q => decide (same q p = false) && !seen.any (same q) := by
        funext q
        simp
      have rest := ih (p :: seen) later
      rw [List.map_cons, both] at rest
      rw [if_neg (by decide), rest, List.filter_cons_of_pos (by simp [old]), List.eraseDupsBy_cons, List.map_cons,
        List.filter_filter]

variable {settings : Settings} {sources : List Path}

/-- A file that is planned is that of one of the sources. -/
theorem mem_sources_of_mem_plan {file : SourceFile} (planned : file ∈ plan workingDirectory settings sources) :
    file.input ∈ sources ∧ file = inDirectory workingDirectory settings.outputDir file.input := by
  obtain ⟨input, inside, rfl⟩ := List.mem_map.mp (distinct_subset _ _ planned)
  exact ⟨inside, rfl⟩

/-- One source in two spellings has one name, unless one of them is made of dots alone. -/
theorem baseName_eq_of_whole_eq
    (dots : ∀ p ∈ sources, ∀ q ∈ sources, whole workingDirectory p = whole workingDirectory q →
      p.components = [.current] → baseName q = "source")
    (inside : p ∈ sources) (inside' : q ∈ sources) (paths : whole workingDirectory p = whole workingDirectory q) :
    baseName p = baseName q := by
  by_cases left : p.components = [.current]
  · rw [dots p inside p inside rfl left, dots p inside q inside' paths left]
  · by_cases right : q.components = [.current]
    · rw [dots q inside' p inside paths.symm right, dots q inside' q inside' rfl right]
    · rw [baseName, baseName, ← fileName?_whole left, ← fileName?_whole right, paths]

/-- Let different sources have different tags, and let no path of dots alone be given by a name besides. Then the plan
has the first spelling of each source, and no two of its files share a path, the output and the document of one source
that is itself named like a document apart. -/
theorem plan_apart (workingDirectory : Option Path) (settings : Settings) (sources : List Path)
    (tags : ∀ p ∈ sources, ∀ q ∈ sources, whole workingDirectory p ≠ whole workingDirectory q →
      tag workingDirectory p ≠ tag workingDirectory q)
    (dots : ∀ p ∈ sources, ∀ q ∈ sources, whole workingDirectory p = whole workingDirectory q →
      p.components = [.current] → baseName q = "source") :
    plan workingDirectory settings sources =
        (sources.eraseDupsBy fun p q => whole workingDirectory p == whole workingDirectory q).map
          (inDirectory workingDirectory settings.outputDir) ∧
      (plan workingDirectory settings sources).Pairwise (fun f g =>
        ∀ a ∈ f.written, ∀ b ∈ g.written, a.agrees b = false) ∧
      ∀ f ∈ plan workingDirectory settings sources, f.input.extension? ≠ some "cid" →
        f.output.agrees f.document = false := by
  have outputs {p q : Path} (inside : p ∈ sources) (inside' : q ∈ sources)
      (paths : whole workingDirectory p = whole workingDirectory q) :
      (inDirectory workingDirectory settings.outputDir p).output =
        (inDirectory workingDirectory settings.outputDir q).output :=
    output_congr paths (baseName_eq_of_whole_eq dots inside inside' paths)
  -- whatever the spelling, a common file means a common tag, and this a common path
  have shared {p q a b : Path} (inside : p ∈ sources) (inside' : q ∈ sources)
      (own : a ∈ (inDirectory workingDirectory settings.outputDir p).written)
      (own' : b ∈ (inDirectory workingDirectory settings.outputDir q).written) (same : a.agrees b = true) :
      whole workingDirectory p = whole workingDirectory q := by
    by_contra other
    exact tags p inside q inside' other (tag_eq_of_agrees own own' same)
  refine ⟨?_, ?_, ?_⟩
  · have agree : ∀ p ∈ sources, ∀ q ∈ [] ++ sources,
        (inDirectory workingDirectory settings.outputDir p).output.agrees
          (inDirectory workingDirectory settings.outputDir q).output =
            (whole workingDirectory p == whole workingDirectory q) := by
      intro p inside q inside'
      rw [Bool.eq_iff_iff, beq_iff_eq]
      constructor
      · exact shared inside inside' (output_mem _) (output_mem _)
      · intro paths
        rw [outputs inside inside' paths]
        exact beq_self_eq_true _
    have planned := distinct_map [] sources agree
    simpa [plan] using planned
  · refine (pairwise_distinct _ _).imp_of_mem fun {f g} first later apart a own b own' => ?_
    obtain ⟨inside, spelled⟩ := mem_sources_of_mem_plan first
    obtain ⟨inside', spelled'⟩ := mem_sources_of_mem_plan later
    rw [spelled] at own apart
    rw [spelled'] at own' apart
    rw [Bool.eq_false_iff]
    intro same
    have paths := shared inside inside' own own' same
    rw [outputs inside inside' paths] at apart
    exact absurd (beq_self_eq_true _) (Bool.eq_false_iff.mp apart)
  · intro f planned source
    rw [(mem_sources_of_mem_plan planned).2]
    exact agrees_document_eq_false source

/-- Two files of one name, the first of them and the working directory in two spellings each. -/
theorem plan_apart_spellings :
    let files := plan (some ⟨"/w"⟩) {} [⟨"a/main.c"⟩, ⟨"./a//main.c"⟩, ⟨"b/main.c"⟩, ⟨"."⟩, ⟨"./."⟩]
    files.map (·.input) = [⟨"a/main.c"⟩, ⟨"b/main.c"⟩, ⟨"."⟩] ∧
      files.Pairwise (fun f g => ∀ a ∈ f.written, ∀ b ∈ g.written, a.agrees b = false) ∧
      ∀ f ∈ files, f.output.agrees f.document = false := by
  obtain ⟨planned, apart, own⟩ := plan_apart (some ⟨"/w"⟩) {}
    [⟨"a/main.c"⟩, ⟨"./a//main.c"⟩, ⟨"b/main.c"⟩, ⟨"."⟩, ⟨"./."⟩] (by decide +kernel) (by decide +kernel)
  refine ⟨?_, apart, fun f inside => own f inside ?_⟩
  · rw [planned]
    decide +kernel
  · rw [planned] at inside
    revert f
    decide +kernel

/-- The working directory, given by dots and by its name, is one path and is planned twice; and the output of a source
that is named like a document is its document. -/
theorem plan_dots_and_name :
    let sources : List Path := [⟨"."⟩, ⟨"/w"⟩]
    (∀ p ∈ sources, ∀ q ∈ sources, whole (some ⟨"/w"⟩) p ≠ whole (some ⟨"/w"⟩) q →
        tag (some ⟨"/w"⟩) p ≠ tag (some ⟨"/w"⟩) q) ∧
      (sources.map (whole (some ⟨"/w"⟩))).eraseDups = [⟨"/w"⟩] ∧
      (plan (some ⟨"/w"⟩) {} sources).map (·.input) = sources ∧
      ∃ f ∈ plan (some ⟨"/w"⟩) {} [⟨"main.cid"⟩], f.output = f.document := by
  decide +kernel

end SourceFile

end SourceCoverage
