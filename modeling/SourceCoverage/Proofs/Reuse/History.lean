import SourceCoverage.Proofs.Document.Loading
import SourceCoverage.Proofs.Finder.Growth
import SourceCoverage.Proofs.Reuse.Fingerprint
import SourceCoverage.Proofs.Reuse.Planned

namespace SourceCoverage

open Workspace

namespace Instrumentation

variable {grammar : Grammar} {settings : Settings} {input : Path} {source : Octets} {made : Instrumentation}

/-- The document of a source is that of a walk without failure. -/
theorem document_eq_of_ofSource (instrumented : ofSource grammar settings input source = .ok made) :
    ∃ root, (Finder.walk settings.decisionPolicy root { sourceHash := Sha256.digest source }).failure = none ∧
      made.document =
        { (Finder.walk settings.decisionPolicy root { sourceHash := Sha256.digest source }).ledger.finalize with
          settingsHash := settings.fingerprint input } := by
  cases parsed : grammar input source settings.compilerArgs with
  | error failure => simp [ofSource, parsed, bind, Except.bind] at instrumented
  | ok tree =>
    simp only [ofSource, parsed, bind, Except.bind, ofParsed] at instrumented
    split at instrumented
    · cases instrumented
    · rename_i success
      split at instrumented
      · cases instrumented
      · cases instrumented
        exact ⟨tree.root, success, rfl⟩

/-- The document of a source names the source and the settings, and is read back. -/
theorem document_of_ofSource (instrumented : ofSource grammar settings input source = .ok made) :
    made.document.sourceHash = Sha256.digest source ∧ made.document.settingsHash = settings.fingerprint input ∧
      ∀ m ∈ made.document.markers, m.Regular := by
  obtain ⟨root, _, document⟩ := document_eq_of_ofSource instrumented
  obtain ⟨entered, records, grows, -⟩ := Finder.grows_walk settings.decisionPolicy root (Sha256.digest source)
  rw [document]
  exact ⟨grows.hash, rfl, fun m member => grows.agrees.regular m (List.mem_mergeSort.mp member)⟩

end Instrumentation

/-- A pass over a file: its settings, and the source at that time if there was one. -/
structure Pass where
  settings : Settings
  source : Option Octets

/-- The texts that are hashed in a pass. -/
def Pass.texts (input : Path) (pass : Pass) : List Octets :=
  pass.source.toList ++ [Utf8.encode (pass.settings.fingerprintText input)]

/-- Texts that their hashes tell apart. -/
def CollisionFree (texts : List Octets) : Prop :=
  ∀ a ∈ texts, ∀ b ∈ texts, Sha256.digest a = Sha256.digest b → a = b

instance (texts : List Octets) : Decidable (CollisionFree texts) :=
  inferInstanceAs (Decidable (∀ a ∈ texts, ∀ b ∈ texts, Sha256.digest a = Sha256.digest b → a = b))

section

variable (codec : Codec) (parse : Dialect → Octets → Except Failure ConcreteNode) (file : SourceFile)

/-- The pass that is about to start. -/
def nextPass (settings : Settings) (w : Workspace) : Pass := ⟨settings, w.fileAt (w.target file.input)⟩

/-- Passes over a file, the last one first, and what they lead to. Between passes anything may change but the output
and the document. -/
inductive History : List Pass → Workspace → Prop
  | start {w : Workspace} : w.fileAt (w.target file.document) = none → History [] w
  | edit {passes : List Pass} {w after : Workspace} {touched : List DiskLocation} : History passes w →
      ChangesOnly touched w after → w.target file.output ∉ touched → w.target file.document ∉ touched →
      History passes after
  | pass {passes : List Pass} {w after : Workspace} {settings : Settings} {result : Except Failure Outcome} :
      History passes w → settings.probes.OnOneLine →
      Ends (passFile codec (.ofConcrete parse) settings file) w result after →
      History (nextPass file settings w :: passes) after

/-- A document stands only beside the text with which one of the passes made it. -/
def Vouched (passes : List Pass) (w : Workspace) : Prop :=
  (w.pair file).2 = none ∨ ∃ pass ∈ passes, pass.settings.probes.OnOneLine ∧ ∃ source made,
    pass.source = some source ∧
    Instrumentation.ofSource (.ofConcrete parse) pass.settings file.input source = .ok made ∧
    w.pair file = (some made.output, some (made.document.file codec pass.settings.compressDocument))

end

variable {codec : Codec} {parse : Dialect → Octets → Except Failure ConcreteNode} {file : SourceFile}
  {passes : List Pass} {w after : Workspace} {settings : Settings}

theorem Vouched.of_pair (vouched : Vouched codec parse file passes w) (same : after.pair file = w.pair file)
    {more : List Pass} (inside : passes ⊆ more) : Vouched codec parse file more after := by
  rcases vouched with none | ⟨pass, member, line, source, made, read, instrumented, pair⟩
  · exact Or.inl (same ▸ none)
  · exact Or.inr ⟨pass, inside member, line, source, made, read, instrumented, same.trans pair⟩

/-- A pass keeps documents vouched for, however it ends. -/
theorem Vouched.pass (vouched : Vouched codec parse file passes w) (apart : file.Apart w) {front : List String}
    {name : String} (steps : file.document.steps = front ++ [name]) (down : name ≠ "..")
    (line : settings.probes.OnOneLine) {result : Except Failure Outcome}
    (ends : Ends (passFile codec (.ofConcrete parse) settings file) w result after) :
    Vouched codec parse file (nextPass file settings w :: passes) after := by
  rcases ends_passFile apart steps down ends with same | none | ⟨source, made, read, instrumented, pair⟩
  · exact vouched.of_pair same (List.subset_cons_self _ _)
  · exact Or.inl none
  · exact Or.inr ⟨_, List.mem_cons_self, line, source, made, read, instrumented, pair⟩

theorem History.vouched (history : History codec parse file passes w) (apart : file.Apart w) {front : List String}
    {name : String} (steps : file.document.steps = front ++ [name]) (down : name ≠ "..") :
    Vouched codec parse file passes w := by
  induction history with
  | start none => exact Or.inl none
  | edit _ changes output document ih =>
    exact (ih (apart.of_directory changes.directory.symm)).of_pair (changes.pair output document) (List.Subset.refl _)
  | pass _ line ends ih =>
    have before := apart.of_directory (runs_directory ends).symm
    exact (ih before).pass before steps down line ends

theorem run_load {p : Path} {bytes : Octets} {document : Document}
    (stored : w.disk.read w.directory p = .ok bytes) (decoded : Document.ofFile codec bytes = .ok document) :
    (w.run (Document.load codec p).outcome).1 = .ok document := by
  rw [Document.run_load stored, decoded]
  rfl

/-- A pass whose document was made in an earlier one would make the same, if hashes tell the texts apart. -/
theorem ofSource_of_hashes {pass : Pass} (member : pass ∈ passes) (line' : pass.settings.probes.OnOneLine)
    (line : settings.probes.OnOneLine)
    (free : CollisionFree ((nextPass file settings w :: passes).flatMap (Pass.texts file.input)))
    {source source' : Octets} (read : w.fileAt (w.target file.input) = some source)
    (read' : pass.source = some source') (sourceHash : Sha256.digest source' = Sha256.digest source)
    (settingsHash : pass.settings.fingerprint file.input = settings.fingerprint file.input) :
    source' = source ∧ Instrumentation.ofSource (.ofConcrete parse) pass.settings file.input source =
      Instrumentation.ofSource (.ofConcrete parse) settings file.input source := by
  have earlier : ∀ {text}, text ∈ pass.texts file.input →
      text ∈ (nextPass file settings w :: passes).flatMap (Pass.texts file.input) :=
    fun inside => List.mem_flatMap.mpr ⟨pass, List.mem_cons_of_mem _ member, inside⟩
  have now : ∀ {text}, text ∈ (nextPass file settings w).texts file.input →
      text ∈ (nextPass file settings w :: passes).flatMap (Pass.texts file.input) :=
    fun inside => List.mem_flatMap.mpr ⟨_, List.mem_cons_self, inside⟩
  have texts := free _ (earlier (by simp [Pass.texts])) _ (now (by simp [Pass.texts, nextPass])) settingsHash
  have agree := Settings.agree_of_fingerprintText line' line (Utf8.encode_injective texts)
  exact ⟨free _ (earlier (by simp [Pass.texts, read'])) _ (now (by simp [Pass.texts, nextPass, read])) sourceHash,
    Instrumentation.ofSource_of_agree agree settingsHash parse source⟩

/-- The tree of a function that calls another. -/
def callerTree : ConcreteNode :=
  .node "translation_unit" none { named := true } 0 18
    [.node "function_definition" none { named := true } 0 18
      [.node "compound_statement" (some "body") { named := true } 12 18
        [.node "expression_statement" none { named := true } 13 17
          [.node "call_expression" none { named := true } 13 16 []]]]]

def callerFile : SourceFile := ⟨⟨"f.c"⟩, ⟨"out/f_bda90eca.c"⟩, ⟨"out/f_bda90eca.cid"⟩⟩

def callerStart : Workspace := { disk := ⟨[(["f.c"], .file (Utf8.encode "void f(void){g();}"))]⟩ }

def callerPass (settings : Settings) : Script (Except Failure Outcome) :=
  (passFile .storing (.ofConcrete fun _ _ => .ok callerTree) settings callerFile).outcome

/-- After the first pass. -/
def callerMade : Workspace := (callerStart.run (callerPass {})).2

end SourceCoverage
