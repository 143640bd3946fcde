import Mathlib.Data.List.Basic
import SourceCoverage.Instrumentation
import SourceCoverage.Proofs.Probe

namespace SourceCoverage

open Settings

/-- Two texts whose first lines end at the same mark. -/
theorem append_inj_of_notMem {α : Type} {a b c d : List α} {x : α} (noX : x ∉ a) (noX' : x ∉ c)
    (same : a ++ x :: b = c ++ x :: d) : a = c ∧ b = d := by
  induction a generalizing c with
  | nil =>
    cases c with
    | nil => exact ⟨rfl, (List.cons.inj same).2⟩
    | cons y c =>
      obtain ⟨rfl, _⟩ := List.cons.inj same
      exact absurd List.mem_cons_self noX'
  | cons y a ih =>
    cases c with
    | nil =>
      obtain ⟨rfl, _⟩ := List.cons.inj same
      exact absurd List.mem_cons_self noX
    | cons z c =>
      obtain ⟨rfl, rest⟩ := List.cons.inj same
      obtain ⟨rfl, rfl⟩ := ih (fun inside => noX (List.mem_cons_of_mem _ inside))
        (fun inside => noX' (List.mem_cons_of_mem _ inside)) rest
      exact ⟨rfl, rfl⟩

namespace Settings

/-- What of the settings of a file shapes its instrumented text. -/
structure Agree (input : Path) (s t : Settings) : Prop where
  probes : s.probes = t.probes
  policy : s.decisionPolicy = t.decisionPolicy
  header : s.runtimeHeader = t.runtimeHeader
  dialect : Dialect.choose input s.compilerArgs = Dialect.choose input t.compilerArgs

theorem toList_fingerprintText (s : Settings) (input : Path) :
    (s.fingerprintText input).toList =
      ("checkpoint=".toList ++ s.probes.checkpoint.toList) ++ '\n' ::
      (("evaluation=".toList ++ s.probes.evaluation.toList) ++ '\n' ::
      (("policy=".toList ++ (policyName s.decisionPolicy).toList) ++ '\n' ::
      ("header=".toList ++ (s.runtimeHeader.text.toList ++
        ("\ndialect=".toList ++ (dialectName (Dialect.choose input s.compilerArgs)).toList ++ ['\n']))))) := by
  delta fingerprintText
  simp [toString, String.toList_append]

theorem newline_notMem_policyName (policy : DecisionPolicy) : '\n' ∉ (policyName policy).toList := by
  cases policy <;> decide

theorem policyName_injective {p q : DecisionPolicy} (same : policyName p = policyName q) : p = q := by
  revert same
  cases p <;> cases q <;> decide

/-- A header and a dialect can be told from the end of the text. -/
theorem header_dialect_inj {header header' : List Char} {dialect dialect' : Dialect}
    (same : header ++ ("\ndialect=".toList ++ (dialectName dialect).toList ++ ['\n']) =
      header' ++ ("\ndialect=".toList ++ (dialectName dialect').toList ++ ['\n'])) :
    header = header' ∧ dialect = dialect' := by
  -- The dialects end in different letters, so the octet before the last tells them apart.
  have ends : dialect = dialect' := by
    have last := congrArg (fun text => (text.dropLast).getLast?) same
    cases dialect <;> cases dialect' <;> simp [dialectName] at last ⊢
  subst ends
  exact ⟨List.append_cancel_right same, rfl⟩

/-- A line of the text, with its key in front. -/
theorem line_inj {key : String} {value value' rest rest' : List Char} (noKey : '\n' ∉ key.toList)
    (noValue : '\n' ∉ value) (noValue' : '\n' ∉ value')
    (same : (key.toList ++ value) ++ '\n' :: rest = (key.toList ++ value') ++ '\n' :: rest') :
    value = value' ∧ rest = rest' := by
  have keyed : ∀ text : List Char, '\n' ∉ text → '\n' ∉ key.toList ++ text := by
    intro text noText inside
    exact (List.mem_append.mp inside).elim noKey noText
  obtain ⟨lines, rests⟩ := append_inj_of_notMem (keyed value noValue) (keyed value' noValue') same
  exact ⟨List.append_cancel_left lines, rests⟩

/-- Names and policy are read from the front of the text, line by line. What is left is read from its end. -/
theorem fingerprintText_inj {input input' : Path} {s t : Settings} (line : s.probes.OnOneLine)
    (line' : t.probes.OnOneLine) (same : s.fingerprintText input = t.fingerprintText input') :
    s.probes = t.probes ∧ s.decisionPolicy = t.decisionPolicy ∧ s.runtimeHeader.text = t.runtimeHeader.text ∧
      Dialect.choose input s.compilerArgs = Dialect.choose input' t.compilerArgs := by
  have texts := congrArg String.toList same
  rw [toList_fingerprintText, toList_fingerprintText] at texts
  obtain ⟨checkpoint, texts⟩ := line_inj (by decide) line.1 line'.1 texts
  obtain ⟨evaluation, texts⟩ := line_inj (by decide) line.2 line'.2 texts
  obtain ⟨policy, texts⟩ :=
    line_inj (by decide) (newline_notMem_policyName _) (newline_notMem_policyName _) texts
  obtain ⟨header, dialect⟩ := header_dialect_inj (List.append_cancel_left texts)
  have probes : s.probes = t.probes :=
    congrArg₂ ProbeNames.mk (String.toList_inj.mp checkpoint) (String.toList_inj.mp evaluation)
  exact ⟨probes, policyName_injective (String.toList_inj.mp policy), String.toList_inj.mp header, dialect⟩

theorem agree_of_fingerprintText {input : Path} {s t : Settings} (line : s.probes.OnOneLine)
    (line' : t.probes.OnOneLine) (same : s.fingerprintText input = t.fingerprintText input) : Agree input s t := by
  obtain ⟨probes, policy, header, dialect⟩ := fingerprintText_inj line line' same
  exact { probes, policy, header := congrArg Path.mk header, dialect }

/-- The octets that are hashed for two files are the same exactly if all settings that shape the instrumented text
are the same. -/
theorem encode_fingerprintText_eq_iff {input input' : Path} {s t : Settings} (line : s.probes.OnOneLine)
    (line' : t.probes.OnOneLine) :
    Utf8.encode (s.fingerprintText input) = Utf8.encode (t.fingerprintText input') ↔
      s.probes.checkpoint = t.probes.checkpoint ∧ s.probes.evaluation = t.probes.evaluation ∧
      s.decisionPolicy = t.decisionPolicy ∧ s.runtimeHeader.text = t.runtimeHeader.text ∧
      Dialect.choose input s.compilerArgs = Dialect.choose input' t.compilerArgs := by
  constructor
  · intro same
    obtain ⟨probes, policy, header, dialect⟩ := fingerprintText_inj line line' (Utf8.encode_injective same)
    exact ⟨congrArg ProbeNames.checkpoint probes, congrArg ProbeNames.evaluation probes, policy, header, dialect⟩
  · rintro ⟨checkpoint, evaluation, policy, header, dialect⟩
    refine congrArg Utf8.encode ?_
    rw [← String.toList_inj, toList_fingerprintText, toList_fingerprintText, checkpoint, evaluation, policy, header,
      dialect]

/-- A header that ends as if another dialect followed it. Flags that choose one dialect in two ways, and the number of
workers, make no difference; the end of the header does. -/
theorem encode_fingerprintText_dialect_in_header :
    let s : Settings := { runtimeHeader := ⟨"a.h\ndialect=C"⟩, compilerArgs := ["-xc++"] }
    let t : Settings := { runtimeHeader := ⟨"a.h\ndialect=C"⟩, compilerArgs := ["-std=c++17", "-O2"], jobs := 4 }
    let u : Settings := { runtimeHeader := ⟨"a.h"⟩, compilerArgs := ["-x", "c"] }
    Utf8.encode (s.fingerprintText ⟨"main.c"⟩) = Utf8.encode (t.fingerprintText ⟨"lib/main.cpp"⟩) ∧
      Utf8.encode (s.fingerprintText ⟨"main.c"⟩) ≠ Utf8.encode (u.fingerprintText ⟨"main.c"⟩) := by
  intro s t u
  have line : ProbeNames.OnOneLine {} := ⟨by decide, by decide⟩
  constructor
  · exact (encode_fingerprintText_eq_iff (s := s) (t := t) line line).mpr ⟨rfl, rfl, rfl, rfl, by decide⟩
  · rw [Ne, encode_fingerprintText_eq_iff (s := s) (t := u) line line]
    decide

/-- A newline in a name would let it run into the next line. -/
example : fingerprintText { probes := ⟨"a\nevaluation=b", "c"⟩ } ⟨"f"⟩ =
    fingerprintText { probes := ⟨"a", "b\nevaluation=c"⟩ } ⟨"f"⟩ := by decide

end Settings

/-- Settings that agree give one instrumentation, if trees depend on dialect and text alone. -/
theorem Instrumentation.ofSource_of_agree {input : Path} {s t : Settings} (agree : s.Agree input t)
    (same : s.fingerprint input = t.fingerprint input)
    (parse : Dialect → Octets → Except Failure ConcreteNode) (source : Octets) :
    ofSource (.ofConcrete parse) s input source = ofSource (.ofConcrete parse) t input source := by
  have parsed : Grammar.ofConcrete parse input source s.compilerArgs =
      Grammar.ofConcrete parse input source t.compilerArgs := by
    simp only [Grammar.ofConcrete, agree.dialect]
  have instrumented : ∀ hash tree, ofParsed s input source hash tree = ofParsed t input source hash tree := by
    intro hash tree
    simp only [ofParsed, agree.policy, agree.probes, agree.header, same]
  simp only [ofSource, parsed, instrumented]

end SourceCoverage
