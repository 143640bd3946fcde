import SourceCoverage.Codec.Storing
import SourceCoverage.Command.Run
import SourceCoverage.Proofs.SourceFile

namespace SourceCoverage

open SourceCoverage.Path

section Division

variable {name front back : List Char}

/-- A name with an ending is what stands in front of its last dot, the dot and the ending. -/
theorem divideName_of_ending (divided : (divideName name).2 = some back) :
    name = (divideName name).1 ++ '.' :: back ∧ (divideName name).1 ≠ [] := by
  have whole := List.takeWhile_append_dropWhile (p := (· != '.')) (l := name.reverse)
  have head := List.head?_dropWhile_not (· != '.') name.reverse
  unfold divideName at divided ⊢
  split at divided
  · rename_i dot c before kept
    rw [kept] at whole head
    obtain rfl : dot = '.' := by simpa using head
    cases divided
    have spelled := congrArg List.reverse whole
    rw [List.reverse_reverse] at spelled
    exact ⟨spelled.symm.trans (by simp), by simp⟩
  · cases divided

theorem divideName_of_notMem_tail (noDot : '.' ∉ name.tail) : (divideName name).2 = none := by
  rw [Option.eq_none_iff_forall_ne_some]
  intro ending divided
  obtain ⟨spelled, filled⟩ := divideName_of_ending divided
  rw [spelled, List.tail_append_of_ne_nil filled] at noDot
  simp at noDot

theorem divideName_append_dot (filled : front ≠ []) (noDot : '.' ∉ back) :
    divideName (front ++ '.' :: back) = (front, some back) := by
  obtain ⟨-, endings, undivided⟩ := divideName_spec (front ++ '.' :: back)
  cases divided : (divideName (front ++ '.' :: back)).2 with
  | none =>
    have inside := (undivided divided).2
    rw [List.tail_append_of_ne_nil filled] at inside
    simp at inside
  | some ending =>
    have spelled := (divideName_of_ending divided).1
    obtain ⟨before, rfl⟩ := SourceFile.append_dot_inj noDot (endings ending divided).2 spelled
    exact Prod.ext before.symm divided

end Division

namespace SourceFile

variable (workingDirectory : Option Path) (outputDir input : Path)

theorem extension?_output : (inDirectory workingDirectory outputDir input).output.extension? = input.extension? := by
  have isPlanned := (isEnding_ownEnding input).isPlanned workingDirectory
  rw [inDirectory_output, Path.extension?, fileName?_join _ isPlanned.noSlash isPlanned.mark (by decide),
    Option.bind_some, String.toList_append]
  cases found : input.extension? with
  | none =>
    rw [ownEnding, found, String.toList_empty, List.append_nil, divideName_of_notMem_tail (dot_notMem_tail found),
      Option.map_none]
  | some extension =>
    have filled : (taggedStem workingDirectory input).toList ≠ [] := by simp [toList_taggedStem]
    have spelled : (ownEnding input).toList = '.' :: extension.toList := by simp [ownEnding, found]
    rw [spelled, divideName_append_dot filled (notMem_extension found).2, Option.map_some, String.ofList_toList]

theorem ofPath_output : Dialect.ofPath (inDirectory workingDirectory outputDir input).output =
    Dialect.ofPath input := by
  rw [Dialect.ofPath, Dialect.ofPath, extension?_output]

end SourceFile

namespace Dialect

theorem lowercase_eq (s : String) : lowercase s = String.ofList (s.toList.map Char.toLower) := by
  rw [lowercase, ← String.toList_inj, String.toList_map, String.toList_ofList]

/-- Flags chose C although the extension is one of C++. -/
def Overruled (input : Path) (flags : List String) : Prop := ofFlags flags = some .c ∧ ofPath input = .cpp

instance (input : Path) (flags : List String) : Decidable (Overruled input flags) :=
  inferInstanceAs (Decidable (_ ∧ _))

theorem overruled_iff (input : Path) (flags : List String) :
    Overruled input flags ↔ choose input flags = .c ∧ ofPath input = .cpp := by
  rw [Overruled, choose]
  cases ofFlags flags with
  | none => cases ofPath input <;> simp
  | some dialect => simp

end Dialect

theorem Probes.evaluationClose_inj {probes probes' : Probes} :
    probes.evaluationClose = probes'.evaluationClose ↔ probes.dialect = probes'.dialect := by
  unfold evaluationClose
  cases probes.dialect <;> cases probes'.dialect <;> decide

/-- An instrumented text is stripped in the dialect of its instrumentation, and closers of evaluations are looked for
as they were put in, if C++ is asked for exactly when that dialect is C++. Only where flags overruled an extension of
C++ no request gives the dialect. -/
theorem Command.runStrip_of_output (codec : Codec) (workingDirectory : Option Path) (outputDir input : Path)
    (flags : List String) (request : StripRequest) (names : ProbeNames)
    (instrumented : request.file = (SourceFile.inDirectory workingDirectory outputDir input).output) :
    (¬ Dialect.Overruled input flags → request.cpp = (Dialect.choose input flags == .cpp) →
      runStrip codec request = restore codec request (Dialect.choose input flags) ∧
        (⟨names, request.dialect⟩ : Probes).evaluationClose =
          (⟨names, Dialect.choose input flags⟩ : Probes).evaluationClose) ∧
    (Dialect.Overruled input flags →
      request.dialect ≠ Dialect.choose input flags ∧
        (⟨names, request.dialect⟩ : Probes).evaluationClose ≠
          (⟨names, Dialect.choose input flags⟩ : Probes).evaluationClose) := by
  have extension : Dialect.ofPath request.file = Dialect.ofPath input := by
    rw [instrumented, SourceFile.ofPath_output]
  constructor
  · intro agrees told
    have same : request.dialect = Dialect.choose input flags := by
      rw [StripRequest.dialect, told, extension]
      cases chosen : Dialect.choose input flags with
      | c =>
        cases byPath : Dialect.ofPath input with
        | c => rfl
        | cpp => exact absurd ((Dialect.overruled_iff input flags).mpr ⟨chosen, byPath⟩) agrees
      | cpp => rfl
    exact ⟨congrArg (restore codec request) same, Probes.evaluationClose_inj.mpr same⟩
  · intro overruled
    obtain ⟨chosen, byPath⟩ := (Dialect.overruled_iff input flags).mp overruled
    have different : request.dialect ≠ Dialect.choose input flags := by
      rw [StripRequest.dialect, extension, chosen, byPath]
      cases request.cpp <;> decide
    exact ⟨different, fun same => different (Probes.evaluationClose_inj.mp same)⟩

/-- A source in C that flags make C++; and a source in C++ that flags make C, whichever way it is asked for. -/
theorem Command.runStrip_of_output_flags :
    let output (input : Path) : Path := (SourceFile.inDirectory none ⟨".coveron"⟩ input).output
    let asked : StripRequest := { file := output ⟨"lib/main.c"⟩, cpp := true }
    let plain (cpp : Bool) : StripRequest := { file := output ⟨"main.cpp"⟩, cpp }
    runStrip .storing asked = restore .storing asked (Dialect.choose ⟨"lib/main.c"⟩ ["-std=c99", "-xc++"]) ∧
      ∀ cpp, (plain cpp).dialect ≠ Dialect.choose ⟨"main.cpp"⟩ ["-std=c++17", "-x", "c"] := by
  intro output asked plain
  have forced := runStrip_of_output .storing none ⟨".coveron"⟩ ⟨"lib/main.c"⟩ ["-std=c99", "-xc++"] asked {}
    (by dsimp only [asked, output])
  refine ⟨(forced.1 (by decide) (by decide)).1, fun cpp => ?_⟩
  have extension : Dialect.ofPath ⟨"main.cpp"⟩ = .cpp := by
    have ending : Path.extension? ⟨"main.cpp"⟩ = some "cpp" := by decide
    simp only [Dialect.ofPath, ending, Dialect.lowercase_eq]
    decide
  have overruled := runStrip_of_output .storing none ⟨".coveron"⟩ ⟨"main.cpp"⟩ ["-std=c++17", "-x", "c"]
    (plain cpp) {}
    (by dsimp only [plain, output])
  exact (overruled.2 ⟨by decide, extension⟩).1

end SourceCoverage
