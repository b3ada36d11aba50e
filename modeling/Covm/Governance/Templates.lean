import Covm.Bytecode.Matching
import Covm.Files.Frames
import Covm.Number.Order
import Covm.Storage.Tokens

/-!
# Templates (`governance/templates`)

Two registries keep templates as JSON: one in a storage backend, one in files. `serde_json` and the
texts of a backend are parameters. A registry is to keep the history of a template over its updates,
whatever identifier, version and history the caller's definitions carry.
-/

namespace Covm

open Files

structure TemplateVersion where
  version : String
  author : String
  createdAt : Nat
  description : String
  deriving DecidableEq

inductive ParameterType where
  | string | number | boolean | identity | resource
  deriving DecidableEq

structure ParameterDefinition where
  name : String
  description : String
  paramType : ParameterType
  required : Bool
  defaultValue : Option String
  deriving DecidableEq

inductive VotingMethod where
  | simpleMajority | reputationWeighted | rankedChoice
  deriving DecidableEq

structure VotingConfig (F : Type) where
  quorum : F
  threshold : F
  method : VotingMethod
  deliberationPeriod : Nat
  votingPeriod : Nat
  deriving DecidableEq

structure EligibilityConfig (F : Type) where
  requiredRole : Option String
  minimumReputation : Option F
  customLogic : Option (List String)
  deriving DecidableEq

structure ExecutionConfig where
  onApprove : List String
  onReject : Option (List String)
  executionDelay : Option Nat
  deriving DecidableEq

structure Template (F : Type) where
  id : String
  name : String
  version : TemplateVersion
  previousVersions : List TemplateVersion
  parameters : HashMap ParameterDefinition
  voting : VotingConfig F
  eligibility : EligibilityConfig F
  execution : ExecutionConfig
  deriving DecidableEq

inductive TemplateError where
  | templateNotFound (id : String)
  | invalidFormat (details : String)
  | permissionDenied (details : String)
  | storageError (details : String)
  | ioError (details : String)

namespace TemplateError

def ofStorage : StorageError → TemplateError
  | .resourceNotFound key => templateNotFound key
  | .permissionDenied _ action _ => permissionDenied action
  | e => storageError e.display

def ofIo (e : IoError) : TemplateError := ioError e.display

end TemplateError

/-- `serde_json` on templates. -/
class TemplateJson (F : Type) where
  toString : Template F → Except String String
  toStringPretty : Template F → Except String String
  fromStr : String → Except String (Template F)
  /-- What is read of a number that was written; nothing where it was written as `null`. -/
  number : F → Option F

/-- The texts of a backend. -/
class StringStorage (S : Type) where
  storeString : String → String → Option AuthContext → String → EStateM StorageError S Unit
  loadString : S → String → Option AuthContext → String → Except StorageError String
  /-- May read the texts of a namespace. -/
  MayRead : Option AuthContext → String → Prop

/-- What is stored is what is loaded, by all who may. -/
structure StringStorage.Lawful (S : Type) [StringStorage S] : Prop where
  grants : ∀ {key value : String} {auth : Option AuthContext} {ns : String} {s s' : S},
    storeString key value auth ns s = .ok () s' → ∀ reader, MayRead S reader ns →
      loadString s' key reader ns = .ok value
  loads : ∀ {key value : String} {auth : Option AuthContext} {ns : String} {s s' : S},
    storeString key value auth ns s = .ok () s' → ∀ reader loaded,
      loadString s' key reader ns = .ok loaded → loaded = value

variable {F S : Type}

namespace Template

variable [TemplateJson F]

/-- What is read of a template that was written. -/
def reread (t : Template F) : Option (Template F) := do
  let quorum ← TemplateJson.number t.voting.quorum
  let threshold ← TemplateJson.number t.voting.threshold
  return { t with
    voting := { t.voting with quorum, threshold }
    eligibility := { t.eligibility with
      minimumReputation := t.eligibility.minimumReputation.bind TemplateJson.number } }

/-- The numbers are read back as they were written. -/
structure Exact (t : Template F) : Prop where
  quorum : TemplateJson.number t.voting.quorum = some t.voting.quorum
  threshold : TemplateJson.number t.voting.threshold = some t.voting.threshold
  minimumReputation : ∀ r ∈ t.eligibility.minimumReputation, TemplateJson.number r = some r

omit [TemplateJson F] in
/-- But for the identifier and the history, `t` is the definition. -/
def HasContent (t definition : Template F) : Prop :=
  t = { definition with
    id := t.id
    version := t.version
    previousVersions := t.previousVersions }

end Template

/-- Texts are read back as they were written, and numbers one by one. -/
structure TemplateJson.Lawful (F : Type) [TemplateJson F] : Prop where
  reads : ∀ {t : Template F} {text : String}, toString t = .ok text →
    (fromStr text).toOption = t.reread
  readsPretty : ∀ {t : Template F} {text : String}, toStringPretty t = .ok text →
    (fromStr text).toOption = t.reread

namespace Template

variable [TemplateJson F]

def encode (t : Template F) : Except TemplateError String :=
  (TemplateJson.toString t).mapError .invalidFormat

def encodePretty (t : Template F) : Except TemplateError String :=
  (TemplateJson.toStringPretty t).mapError .invalidFormat

def decode (contents : String) : Except TemplateError (Template F) :=
  (TemplateJson.fromStr contents).mapError .invalidFormat

end Template

/-! ### Files -/

structure FileBackedTemplateRegistry where
  templatesDir : Path

namespace FileBackedTemplateRegistry

/-- Calls on the directory of a registry. -/
abbrev M (α : Type) := EStateM TemplateError (FileSystem ByteArray) α

def templatePath (r : FileBackedTemplateRegistry) (id : String) : Path :=
  r.templatesDir.join s!"{id}.json"

variable [TemplateJson F]

def getTemplate (r : FileBackedTemplateRegistry) (files : FileSystem ByteArray) (id : String) :
    Except TemplateError (Template F) :=
  if files.exists_ (r.templatePath id) then
    match files.read (r.templatePath id) with
    | .error e => .error (.ofIo e)
    | .ok bytes =>
      match String.fromUTF8? bytes with
      | none => .error (.ioError "stream did not contain valid UTF-8")
      | some contents => Template.decode contents
  else .error (.templateNotFound id)

/-- What is written for a new template. -/
def created (name : String) (definition : Template F) (author : String) (now : Nat)
    (uuid : String) : Template F :=
  { definition with
    id := if definition.id.isEmpty then s!"template:{uuid}" else definition.id
    version := ⟨"1.0", author, now, s!"Initial version of {name}"⟩
    name }

/-- `split('.').next()` -/
def major (version : String) : String := String.ofList (version.toList.takeWhile (· != '.'))

/-- What is written for an update of `template`. -/
def updated (template definition : Template F) (author : String) (now : Nat) : Template F :=
  let previousVersions := template.previousVersions ++ [template.version]
  { definition with
    version := ⟨s!"{major template.version.version}.{previousVersions.length + 1}", author, now,
      s!"Updated version of {template.name}"⟩
    previousVersions }

/-- `File::create` and `write_all`. -/
def writeTemplate (r : FileBackedTemplateRegistry) (id : String) (t : Template F) : M Unit :=
  fun files =>
    match t.encodePretty with
    | .error e => .error e files
    | .ok json =>
      match FileSystem.write (r.templatePath id) json.toUTF8 files with
      | .ok () files => .ok () files
      | .error e files => .error (.ofIo e) files

def createTemplate (r : FileBackedTemplateRegistry) (name : String) (definition : Template F)
    (author : String) (now : Nat) (uuid : String) : M String := do
  let t := created name definition author now uuid
  r.writeTemplate t.id t
  return t.id

def updateTemplate (r : FileBackedTemplateRegistry) (id : String) (definition : Template F)
    (author : String) (now : Nat) : M Unit := do
  match r.getTemplate (F := F) (← get) id with
  | .error e => throw e
  | .ok template => r.writeTemplate id (updated template definition author now)

end FileBackedTemplateRegistry

/-! ### Storage -/

structure TemplateRegistry where
  templatesPath : Option Path

namespace TemplateRegistry

/-- Calls on a storage backend and on the files beside it. -/
abbrev M (S α : Type) := EStateM TemplateError (S × FileSystem ByteArray) α

def onStorage (x : EStateM StorageError S Unit) : M S Unit := fun (storage, files) =>
  match x storage with
  | .ok () storage => .ok () (storage, files)
  | .error e storage => .error (.ofStorage e) (storage, files)

def onFiles (x : FileSystem.Change ByteArray Unit) : M S Unit := fun (storage, files) =>
  match x files with
  | .ok () files => .ok () (storage, files)
  | .error e files => .error (.ofIo e) (storage, files)

def ensureTemplatesDir (r : TemplateRegistry) : FileSystem.Change ByteArray Unit := do
  match r.templatesPath with
  | none => pure ()
  | some path => if !(← get).exists_ path then FileSystem.createDirAll path

/-- Where templates are kept in files too. -/
def writeFile (r : TemplateRegistry) (id value : String) : FileSystem.Change ByteArray Unit := do
  match r.templatesPath with
  | none => pure ()
  | some path =>
    r.ensureTemplatesDir
    FileSystem.write (path.join s!"{id}.json") value.toUTF8

def key (id : String) : String := s!"templates:{id}"

variable [StringStorage S] [TemplateJson F]

def getTemplate (storage : S) (id : String) (auth : Option AuthContext) :
    Except TemplateError (Template F) := do
  let value ← (StringStorage.loadString storage (key id) auth "governance").mapError .ofStorage
  Template.decode value

/-- Stores a definition as it is. -/
def storeTemplate (r : TemplateRegistry) (id : String) (definition : Template F)
    (auth : Option AuthContext) : M S Unit := do
  match definition.encode with
  | .error e => throw e
  | .ok value =>
    onStorage (StringStorage.storeString (key id) value auth "governance")
    onFiles (r.writeFile id value)

/-- The name and the author are not looked at. -/
def createTemplate (r : TemplateRegistry) (_name : String) (definition : Template F)
    (_author : String) (auth : Option AuthContext) (uuid : String) : M S String := do
  let id := s!"template:{uuid}"
  r.storeTemplate id definition auth
  return id

/-- The history is put together and not stored. -/
def updateTemplate (r : TemplateRegistry) (id : String) (definition : Template F)
    (_author : String) (auth : Option AuthContext) : M S Unit := do
  match getTemplate (F := F) (← get).1 id auth with
  | .error e => throw e
  | .ok template =>
    let _previousVersions := template.previousVersions ++ [template.version]
    r.storeTemplate id definition auth

end TemplateRegistry

/-! ### Runs -/

/-- What the template is read as gives a version, if it can be read. -/
def shownVersion : Except TemplateError (Template F) → List TemplateVersion
  | .ok t => [t.version]
  | .error _ => []

/-- A template was created from `first` and then updated to the definitions of `later`, in this
order, by calls that succeeded. `versions` are the versions it had before its last one. -/
inductive Updated {σ : Type} (creates : σ → Prop) (updates : Template F → σ → σ → Prop)
    (getTemplate : σ → Except TemplateError (Template F)) :
    List (Template F) → List TemplateVersion → σ → Prop
  | create {s : σ} (h : creates s) : Updated creates updates getTemplate [] [] s
  | update {later : List (Template F)} {versions : List TemplateVersion} {definition : Template F}
      {s s' : σ} (h : Updated creates updates getTemplate later versions s)
      (hcall : updates definition s s') :
      Updated creates updates getTemplate (later ++ [definition])
        (versions ++ shownVersion (getTemplate s)) s'

/-- The template is read under its identifier, with the earlier versions, no two versions of one
name and the rest from `last`. -/
def KeepsHistory (id : String) (last : Template F) (versions : List TemplateVersion)
    (read : Except TemplateError (Template F)) : Prop :=
  ∃ t, read = .ok t ∧ t.id = id ∧ t.previousVersions = versions ∧
    ((versions ++ [t.version]).map (·.version)).Nodup ∧ t.HasContent last

/-- The definition that was stored last. -/
def lastDefinition (first : Template F) (later : List (Template F)) : Template F :=
  later.getLast?.getD first

theorem lastDefinition_concat (first definition : Template F) (later : List (Template F)) :
    lastDefinition first (later ++ [definition]) = definition := by
  simp [lastDefinition]

theorem dropLast_concat_last (first : Template F) (later : List (Template F)) :
    (first :: later).dropLast ++ [lastDefinition first later] = first :: later := by
  cases later using List.reverseRecOn with
  | nil => rfl
  | append_singleton later definition =>
    rw [lastDefinition_concat, ← List.cons_append, List.dropLast_concat]

namespace FileBackedTemplateRegistry

variable [TemplateJson F]

/-- A template of this name was created from `first` with this identifier and then updated. -/
def Run (r : FileBackedTemplateRegistry) (name id : String) (first : Template F) :
    List (Template F) → List TemplateVersion → FileSystem ByteArray → Prop :=
  Updated (fun files => ∃ author now uuid files₀,
      r.createTemplate name first author now uuid files₀ = .ok id files)
    (fun definition files files' => ∃ author now,
      r.updateTemplate id definition author now files = .ok () files')
    (fun files => r.getTemplate files id)

end FileBackedTemplateRegistry

/-- A template was created from `first` with this identifier and then updated; `reader` looks at
its versions. -/
def TemplateRegistry.Run [StringStorage S] [TemplateJson F] (r : TemplateRegistry)
    (reader : Option AuthContext) (id : String) (first : Template F) :
    List (Template F) → List TemplateVersion → S × FileSystem ByteArray → Prop :=
  Updated (fun st => ∃ name author auth uuid st₀,
      r.createTemplate name first author auth uuid st₀ = .ok id st)
    (fun definition st st' => ∃ author auth,
      r.updateTemplate id definition author auth st = .ok () st')
    (fun st => TemplateRegistry.getTemplate st.1 id reader)

/-! ### What is read -/

namespace Template

variable [TemplateJson F]

theorem reread_eq_some {t t' : Template F} (h : t.reread = some t') :
    TemplateJson.number t.voting.quorum = some t'.voting.quorum ∧
      TemplateJson.number t.voting.threshold = some t'.voting.threshold ∧
      t'.eligibility.minimumReputation =
        t.eligibility.minimumReputation.bind TemplateJson.number ∧
      t' = { t with voting := t'.voting, eligibility := t'.eligibility } := by
  obtain ⟨quorum, hquorum, h⟩ := Option.bind_eq_some_iff.mp h
  obtain ⟨threshold, hthreshold, h⟩ := Option.bind_eq_some_iff.mp h
  cases h
  exact ⟨hquorum, hthreshold, rfl, rfl⟩

theorem Exact.reread {t : Template F} (h : t.Exact) : t.reread = some t := by
  have hminimum : t.eligibility.minimumReputation.bind TemplateJson.number =
      t.eligibility.minimumReputation := by
    cases hr : t.eligibility.minimumReputation with
    | none => rfl
    | some r => exact h.minimumReputation r hr
  simp [Template.reread, h.quorum, h.threshold, hminimum]

theorem exact_of_reread {t t' : Template F} (h : t.reread = some t')
    (hvoting : t'.voting = t.voting) (heligibility : t'.eligibility = t.eligibility) : t.Exact := by
  obtain ⟨hquorum, hthreshold, hminimum, -⟩ := reread_eq_some h
  rw [hvoting] at hquorum hthreshold
  refine ⟨hquorum, hthreshold, fun r hr => ?_⟩
  rw [heligibility, hr] at hminimum
  exact hminimum.symm

theorem Exact.congr {t t' : Template F} (h : t.Exact) (hvoting : t'.voting = t.voting)
    (heligibility : t'.eligibility = t.eligibility) : t'.Exact := by
  obtain ⟨hquorum, hthreshold, hminimum⟩ := h
  rw [← hvoting] at hquorum hthreshold
  rw [← heligibility] at hminimum
  exact ⟨hquorum, hthreshold, hminimum⟩

theorem toOption_decode (contents : String) :
    (decode (F := F) contents).toOption = (TemplateJson.fromStr contents).toOption := by
  unfold decode
  cases TemplateJson.fromStr (F := F) contents <;> rfl

end Template

theorem eq_ok_of_toOption {ε α : Type} {x : Except ε α} {a : α} (h : x.toOption = some a) :
    x = .ok a := by
  cases x with
  | error e => cases h
  | ok b => exact congrArg Except.ok (Option.some.inj h)

theorem get_bind {ε σ α : Type} (f : σ → EStateM ε σ α) (s : σ) :
    ((get : EStateM ε σ σ) >>= f) s = f s s := rfl

namespace FileBackedTemplateRegistry

variable [TemplateJson F] {r : FileBackedTemplateRegistry} {id : String} {t : Template F}
  {files files' : FileSystem ByteArray}

theorem getTemplate_of_write (hjson : TemplateJson.Lawful F)
    (h : r.writeTemplate id t files = .ok () files') :
    (r.getTemplate files' id).toOption = t.reread := by
  unfold writeTemplate at h
  cases hjson' : t.encodePretty with
  | error e => simp [hjson'] at h
  | ok json =>
    have htext : TemplateJson.toStringPretty t = .ok json := by
      unfold Template.encodePretty at hjson'
      cases htext : TemplateJson.toStringPretty t with
      | error e => simp [htext, Except.mapError] at hjson'
      | ok text => simpa [htext, Except.mapError] using hjson'
    rw [hjson'] at h
    dsimp only at h
    cases hwrite : FileSystem.write (r.templatePath id) json.toUTF8 files with
    | error e files₁ =>
      rw [hwrite] at h
      cases h
    | ok u files₁ =>
      rw [hwrite] at h
      cases h
      have hread := FileSystem.read_of_write hwrite
      rw [getTemplate, if_pos (FileSystem.exists_of_read hread), hread]
      simp only [fromUTF8_toUTF8]
      rw [Template.toOption_decode, hjson.readsPretty htext]

theorem writeTemplate_of_write {json : String} (htext : TemplateJson.toStringPretty t = .ok json)
    (h : FileSystem.write (r.templatePath id) json.toUTF8 files = .ok () files') :
    r.writeTemplate id t files = .ok () files' := by
  rw [writeTemplate, Template.encodePretty, htext]
  simp only [Except.mapError]
  rw [h]

theorem createTemplate_of_write {name author uuid : String} {now : Nat}
    (h : r.writeTemplate (created name t author now uuid).id (created name t author now uuid)
      files = .ok () files') :
    r.createTemplate name t author now uuid files =
      .ok (created name t author now uuid).id files' := by
  simp only [createTemplate, bind, EStateM.bind]
  rw [h]
  rfl

theorem updateTemplate_of_write {template : Template F} {author : String} {now : Nat}
    (hget : r.getTemplate files id = .ok template)
    (h : r.writeTemplate id (updated template t author now) files = .ok () files') :
    r.updateTemplate id t author now files = .ok () files' := by
  unfold updateTemplate
  rw [get_bind, hget]
  exact h

theorem createTemplate_ok {name author uuid : String} {now : Nat}
    (h : r.createTemplate name t author now uuid files = .ok id files') :
    (created name t author now uuid).id = id ∧
      r.writeTemplate id (created name t author now uuid) files = .ok () files' := by
  simp only [createTemplate, bind, EStateM.bind] at h
  split at h
  · next u s hwrite =>
    cases h
    exact ⟨rfl, hwrite⟩
  · cases h

theorem updateTemplate_ok {author : String} {now : Nat}
    (h : r.updateTemplate id t author now files = .ok () files') :
    ∃ template, r.getTemplate files id = .ok template ∧
      r.writeTemplate id (updated template t author now) files = .ok () files' := by
  unfold updateTemplate at h
  rw [get_bind] at h
  cases hread : r.getTemplate (F := F) files id with
  | error e =>
    rw [hread] at h
    cases h
  | ok template =>
    rw [hread] at h
    exact ⟨template, rfl, h⟩

/-- The name of the version after so many others. -/
def versionName (n : Nat) : String := s!"1.{if n = 0 then 0 else n + 1}"

theorem versionName_injective : Function.Injective versionName := by
  intro n k h
  have htexts : "1." ++ toString (if n = 0 then 0 else n + 1) =
      "1." ++ toString (if k = 0 then 0 else k + 1) := h
  have hnumbers := BytecodeCompiler.toString_injective ((String.append_right_inj _).mp htexts)
  split_ifs at hnumbers <;> omega

example : (versionName 0, versionName 1) = ("1.0", "1.2") := by decide

theorem major_eq (n : Nat) : major s!"1.{n}" = "1" := by
  have hlist : (s!"1.{n}").toList = ['1', '.'] ++ (toString n).toList := String.toList_append
  rw [major, hlist]
  rfl

omit [TemplateJson F] in
theorem version_updated {template : Template F} (hmajor : major template.version.version = "1")
    (definition : Template F) (author : String) (now : Nat) :
    (updated template definition author now).version.version =
      s!"1.{template.previousVersions.length + 2}" := by
  have hdot : "1" ++ "." = "1." := by decide
  have hlength : (template.previousVersions ++ [template.version]).length + 1 =
      template.previousVersions.length + 2 := by simp
  show major template.version.version ++ "." ++ toString _ = "1." ++ toString _
  rw [hmajor, hdot, hlength]

/-- What is stored after a run. -/
structure Stored (name id : String) (first : Template F) (later : List (Template F))
    (versions : List TemplateVersion) (t : Template F) : Prop where
  history : t.previousVersions = first.previousVersions ++ versions
  minor : ∃ n : Nat, t.version.version = s!"1.{n}"
  names : first.previousVersions = [] →
    (versions ++ [t.version]).map (·.version) = (List.range (versions.length + 1)).map versionName
  id_eq : t.id = if later = [] then id else (lastDefinition first later).id
  content : Template.HasContent t
    { lastDefinition first later with
      name := if later = [] then name else (lastDefinition first later).name }

theorem Run.stored (hjson : TemplateJson.Lawful F) {name : String} {first : Template F}
    {later : List (Template F)} {versions : List TemplateVersion}
    (h : r.Run name id first later versions files) :
    ∃ t, (r.getTemplate files id).toOption = t.reread ∧ Stored name id first later versions t := by
  induction h with
  | create h =>
    obtain ⟨author, now, uuid, files₀, h⟩ := h
    obtain ⟨hid, hwrite⟩ := createTemplate_ok h
    refine ⟨_, getTemplate_of_write hjson hwrite, ?_, ⟨0, rfl⟩, ?_, hid, rfl⟩
    · simp [created]
    · exact fun _ => rfl
  | @update later versions definition files files' _ hcall ih =>
    obtain ⟨t, ht, hstored⟩ := ih
    obtain ⟨author, now, hcall⟩ := hcall
    obtain ⟨template, hget, hwrite⟩ := updateTemplate_ok hcall
    rw [hget] at ht
    obtain ⟨-, -, -, htemplate⟩ := Template.reread_eq_some ht.symm
    have hversion : template.version = t.version := by rw [htemplate]
    have hprevious : template.previousVersions = t.previousVersions := by rw [htemplate]
    have hmajor : major template.version.version = "1" := by
      obtain ⟨n, hn⟩ := hstored.minor
      rw [hversion, hn, major_eq]
    refine ⟨_, getTemplate_of_write hjson hwrite, ?_, ?_, ?_, ?_, ?_⟩
    · simp [updated, hprevious, hstored.history, hget, shownVersion]
    · exact ⟨_, version_updated hmajor definition author now⟩
    · intro hfirst
      have hnames := hstored.names hfirst
      have hlength : template.previousVersions.length = versions.length := by
        rw [hprevious, hstored.history, hfirst, List.nil_append]
      rw [hget, shownVersion, hversion, List.map_append, hnames, List.length_append,
        List.length_singleton, List.range_succ (n := versions.length + 1), List.map_append,
        List.map_singleton, List.map_singleton, version_updated hmajor, hlength]
      rfl
    · simp [updated, lastDefinition_concat]
    · simp [updated, lastDefinition_concat, Template.HasContent]

theorem Run.keeps_iff (hjson : TemplateJson.Lawful F) {name : String} {first : Template F}
    {later : List (Template F)} {versions : List TemplateVersion}
    (h : r.Run name id first later versions files) :
    KeepsHistory id (lastDefinition first later) versions (r.getTemplate files id) ↔
      first.previousVersions = [] ∧ (lastDefinition first later).Exact ∧
        if later = [] then first.name = name else (lastDefinition first later).id = id := by
  obtain ⟨t, ht, hstored⟩ := h.stored hjson
  have hid := hstored.id_eq
  have hcontent := hstored.content
  constructor
  · rintro ⟨t', hread, hid', hprevious, -, hlast⟩
    rw [hread] at ht
    obtain ⟨-, -, -, ht'⟩ := Template.reread_eq_some ht.symm
    have hvoting : (lastDefinition first later).voting = t.voting := by rw [hcontent]
    have heligibility : (lastDefinition first later).eligibility = t.eligibility := by rw [hcontent]
    refine ⟨?_, ?_, ?_⟩
    · have hhistory : t'.previousVersions = first.previousVersions ++ versions := by
        rw [ht']
        exact hstored.history
      rw [hprevious] at hhistory
      exact List.self_eq_append_left.mp hhistory
    · have hexact := Template.exact_of_reread ht.symm (by rw [hlast, hvoting])
        (by rw [hlast, heligibility])
      exact hexact.congr hvoting heligibility
    · have hname : t'.name = t.name := by rw [ht']
      rw [hlast, hcontent] at hname
      have hid'' : t'.id = t.id := by rw [ht']
      rw [hid', hid] at hid''
      split_ifs with hlater
      · simpa [hlater, lastDefinition] using hname
      · rw [hid'', if_neg hlater]
  · rintro ⟨hfirst, hexact, hown⟩
    have hexact' : t.Exact := hexact.congr (by rw [hcontent]) (by rw [hcontent])
    rw [hexact'.reread] at ht
    refine ⟨t, eq_ok_of_toOption ht, ?_, ?_, ?_, ?_⟩
    · rw [hid]
      split_ifs at hown ⊢ with hlater
      · rfl
      · exact hown
    · rw [hstored.history, hfirst, List.nil_append]
    · rw [hstored.names hfirst]
      exact List.nodup_range.map versionName_injective
    · split_ifs at hown hcontent with hlater
      · rw [Template.HasContent, hcontent, ← hown, hlater]
        rfl
      · exact hcontent

end FileBackedTemplateRegistry

namespace TemplateRegistry

variable [StringStorage S] [TemplateJson F] {r : TemplateRegistry} {id : String} {t : Template F}
  {st st' : S × FileSystem ByteArray}

omit [StringStorage S] [TemplateJson F] in
theorem onFiles_storage {x : FileSystem.Change ByteArray Unit} (h : onFiles x st = .ok () st') :
    st'.1 = st.1 := by
  obtain ⟨storage, files⟩ := st
  unfold onFiles at h
  dsimp only at h
  split at h
  · cases h
    rfl
  · cases h

theorem storeTemplate_ok {auth : Option AuthContext}
    (h : r.storeTemplate id t auth st = .ok () st') :
    ∃ value, TemplateJson.toString t = .ok value ∧
      StringStorage.storeString (key id) value auth "governance" st.1 = .ok () st'.1 := by
  obtain ⟨storage, files⟩ := st
  unfold storeTemplate at h
  cases htext : TemplateJson.toString t with
  | error e =>
    rw [Template.encode, htext] at h
    cases h
  | ok value =>
    rw [Template.encode, htext] at h
    refine ⟨value, rfl, ?_⟩
    simp only [Except.mapError, bind, EStateM.bind] at h
    cases hstore : StringStorage.storeString (key id) value auth "governance" storage with
    | error e storage' =>
      rw [onStorage, hstore] at h
      cases h
    | ok u storage' =>
      rw [onStorage, hstore] at h
      have hsame := onFiles_storage h
      rw [hsame]

/-- What a reader gets is the stored definition. -/
theorem reread_of_store (hjson : TemplateJson.Lawful F) (hstorage : StringStorage.Lawful S)
    {auth : Option AuthContext} (h : r.storeTemplate id t auth st = .ok () st')
    {reader : Option AuthContext} {t' : Template F}
    (hget : getTemplate st'.1 id reader = .ok t') : t.reread = some t' := by
  obtain ⟨value, htext, hstore⟩ := storeTemplate_ok h
  cases hload : StringStorage.loadString st'.1 (key id) reader "governance" with
  | error e =>
    rw [getTemplate, hload] at hget
    cases hget
  | ok loaded =>
    obtain rfl := hstorage.loads hstore reader loaded hload
    have hdecode : Template.decode loaded = .ok t' := by
      rw [getTemplate, hload] at hget
      exact hget
    rw [← hjson.reads htext, ← Template.toOption_decode, hdecode]
    rfl

theorem getTemplate_of_store (hjson : TemplateJson.Lawful F) (hstorage : StringStorage.Lawful S)
    {auth : Option AuthContext} (h : r.storeTemplate id t auth st = .ok () st')
    {reader : Option AuthContext} (hreader : StringStorage.MayRead S reader "governance") :
    (getTemplate st'.1 id reader).toOption = t.reread := by
  obtain ⟨value, htext, hstore⟩ := storeTemplate_ok h
  have hload := hstorage.grants hstore reader hreader
  have hget : getTemplate (F := F) st'.1 id reader = Template.decode value := by
    rw [getTemplate, hload]
    rfl
  rw [hget, Template.toOption_decode, hjson.reads htext]

theorem createTemplate_ok {name author uuid : String} {auth : Option AuthContext}
    (h : r.createTemplate name t author auth uuid st = .ok id st') :
    r.storeTemplate id t auth st = .ok () st' := by
  simp only [createTemplate, bind, EStateM.bind] at h
  split at h
  · next u s hstore =>
    cases h
    exact hstore
  · cases h

theorem updateTemplate_ok {author : String} {auth : Option AuthContext}
    (h : r.updateTemplate id t author auth st = .ok () st') :
    (∃ template, getTemplate (F := F) st.1 id auth = .ok template) ∧
      r.storeTemplate id t auth st = .ok () st' := by
  unfold updateTemplate at h
  rw [get_bind] at h
  cases hread : getTemplate (F := F) st.1 id auth with
  | error e =>
    rw [hread] at h
    cases h
  | ok template =>
    rw [hread] at h
    exact ⟨⟨template, rfl⟩, h⟩

/-- The definitions are what is stored, by the first call or the last. -/
theorem Run.stored (hjson : TemplateJson.Lawful F) (hstorage : StringStorage.Lawful S)
    {reader : Option AuthContext} (hreader : StringStorage.MayRead S reader "governance")
    {first : Template F} {later : List (Template F)} {versions : List TemplateVersion}
    (h : r.Run reader id first later versions st) :
    (∃ auth st₀, r.storeTemplate id (lastDefinition first later) auth st₀ = .ok () st) ∧
      versions = (first :: later).dropLast.map (·.version) := by
  induction h with
  | create h =>
    obtain ⟨name, author, auth, uuid, st₀, h⟩ := h
    exact ⟨⟨auth, st₀, createTemplate_ok h⟩, rfl⟩
  | @update later versions definition st st' hrun hcall ih =>
    obtain ⟨⟨auth₀, st₀, hstored⟩, hversions⟩ := ih
    obtain ⟨author, auth, hcall⟩ := hcall
    obtain ⟨⟨template, hget⟩, hstore⟩ := updateTemplate_ok hcall
    have hread := getTemplate_of_store hjson hstorage hstored hreader
    rw [reread_of_store hjson hstorage hstored hget] at hread
    obtain ⟨-, -, -, htemplate⟩ :=
      Template.reread_eq_some (reread_of_store hjson hstorage hstored hget)
    have hversion : template.version = (lastDefinition first later).version := by rw [htemplate]
    refine ⟨⟨auth, st, by rwa [lastDefinition_concat]⟩, ?_⟩
    rw [eq_ok_of_toOption hread, shownVersion, hversion, hversions, ← List.cons_append,
      List.dropLast_concat, ← List.map_singleton (f := fun t : Template F => t.version),
      ← List.map_append, dropLast_concat_last]

theorem Run.keeps_iff (hjson : TemplateJson.Lawful F) (hstorage : StringStorage.Lawful S)
    {reader : Option AuthContext} (hreader : StringStorage.MayRead S reader "governance")
    {first : Template F} {later : List (Template F)} {versions : List TemplateVersion}
    (h : r.Run reader id first later versions st) :
    KeepsHistory id (lastDefinition first later) versions (getTemplate st.1 id reader) ↔
      (lastDefinition first later).id = id ∧
        (lastDefinition first later).previousVersions =
          (first :: later).dropLast.map (·.version) ∧
        ((first :: later).map (·.version.version)).Nodup ∧
        (lastDefinition first later).Exact := by
  obtain ⟨⟨auth, st₀, hstored⟩, hversions⟩ := h.stored hjson hstorage hreader
  have hread := getTemplate_of_store hjson hstorage hstored hreader
  have hall : versions ++ [(lastDefinition first later).version] =
      (first :: later).map (·.version) := by
    rw [hversions, ← List.map_singleton (f := fun t : Template F => t.version),
      ← List.map_append, dropLast_concat_last]
  have hnames : ((first :: later).map (·.version.version)) =
      (versions ++ [(lastDefinition first later).version]).map (·.version) := by
    rw [hall, List.map_map]
    rfl
  rw [hnames, ← hversions]
  constructor
  · rintro ⟨t, hget, hid, hprevious, hnodup, hcontent⟩
    rw [hget] at hread
    obtain ⟨-, -, -, ht⟩ := Template.reread_eq_some hread.symm
    have hversion : t.version = (lastDefinition first later).version := by rw [ht]
    refine ⟨?_, ?_, ?_, ?_⟩
    · rw [← hid, ht]
    · rw [← hprevious, ht]
    · rwa [← hversion]
    · exact Template.exact_of_reread hread.symm (by rw [hcontent]) (by rw [hcontent])
  · rintro ⟨hid, hprevious, hnodup, hexact⟩
    rw [hexact.reread] at hread
    exact ⟨_, eq_ok_of_toOption hread, hid, hprevious, hnodup, rfl⟩

end TemplateRegistry

/-! ### A budget -/

/-- A backend that keeps every text and lets everybody read it. -/
@[reducible] def sharedTexts : StringStorage (HashMap String) where
  storeString key value _ ns texts := .ok () (texts.insert s!"{ns}/{key}" value)
  loadString texts key _ ns :=
    match texts.lookup s!"{ns}/{key}" with
    | some value => .ok value
    | none => .error (.notFound key)
  MayRead _ _ := True

theorem lawful_sharedTexts : @StringStorage.Lawful _ sharedTexts := by
  refine @StringStorage.Lawful.mk _ sharedTexts ?_ ?_
  · intro key value auth ns s s' h reader _
    cases h
    simp [StringStorage.loadString]
  · intro key value auth ns s s' h reader loaded hload
    cases h
    simpa [StringStorage.loadString, eq_comm] using hload

/-- A template as it is written into a program. -/
def budget (id : String) : Template Binary64 where
  id
  name := "Budget"
  version := ⟨"1.0", "ada", 0, "Test version"⟩
  previousVersions := []
  parameters := ∅
  voting := ⟨Number.ofNat 1, Number.ofNat 1, .simpleMajority, 86400, 604800⟩
  eligibility := ⟨none, none, none⟩
  execution := ⟨["emit \"Proposal approved\""], none, none⟩

def versionText (indent : String) (v : TemplateVersion) : String :=
  "\x7b\n" ++ indent ++ "  \"version\": \"" ++ v.version ++ "\",\n" ++
    indent ++ "  \"author\": \"" ++ v.author ++ "\",\n" ++
    indent ++ "  \"created_at\": " ++ toString v.createdAt ++ ",\n" ++
    indent ++ "  \"description\": \"" ++ v.description ++ "\"\n" ++ indent ++ "\x7d"

def versionsText : List TemplateVersion → String
  | [] => "[]"
  | versions =>
    "[\n    " ++ ",\n    ".intercalate (versions.map (versionText "    ")) ++ "\n  ]"

/-- The file of a template like this one. -/
@[irreducible] def budgetText (t : Template Binary64) : String :=
  "\x7b\n  \"id\": \"" ++ t.id ++ "\",\n  \"name\": \"" ++ t.name ++ "\",\n" ++
    "  \"version\": " ++ versionText "  " t.version ++ ",\n" ++
    "  \"previous_versions\": " ++ versionsText t.previousVersions ++ ",\n" ++
    "  \"parameters\": \x7b\x7d,\n" ++
    "  \"voting\": \x7b\n    \"quorum\": 1.0,\n    \"threshold\": 1.0,\n" ++
    "    \"method\": \"SimpleMajority\",\n    \"deliberation_period\": 86400,\n" ++
    "    \"voting_period\": 604800\n  \x7d,\n" ++
    "  \"eligibility\": \x7b\n    \"required_role\": null,\n" ++
    "    \"minimum_reputation\": null,\n    \"custom_logic\": null\n  \x7d,\n" ++
    "  \"execution\": \x7b\n    \"on_approve\": [\n" ++
    "      \"emit \\\"Proposal approved\\\"\"\n    ],\n" ++
    "    \"on_reject\": null,\n    \"execution_delay\": null\n  \x7d\n\x7d"

/-- `serde_json` on the files of two templates. -/
@[reducible] def budgetJson (a b : Template Binary64) : TemplateJson Binary64 where
  toString _ := .error "not called"
  toStringPretty t := if t = a ∨ t = b then .ok (budgetText t) else .error "not called"
  fromStr contents :=
    if contents = budgetText a then .ok a
    else if contents = budgetText b then .ok b
    else .error "expected value at line 1 column 1"
  number x := if Number.isFinite x then some x else none

theorem lawful_budgetJson {a b : Template Binary64} (hne : budgetText b ≠ budgetText a)
    (ha : @Template.reread _ (budgetJson a b) a = some a)
    (hb : @Template.reread _ (budgetJson a b) b = some b) :
    @TemplateJson.Lawful _ (budgetJson a b) := by
  have hfirst : @TemplateJson.fromStr _ (budgetJson a b) (budgetText a) = .ok a := if_pos rfl
  have hsecond : @TemplateJson.fromStr _ (budgetJson a b) (budgetText b) = .ok b :=
    (if_neg hne).trans (if_pos rfl)
  refine @TemplateJson.Lawful.mk _ (budgetJson a b) (fun h => by cases h) ?_
  intro t text h
  by_cases ht : t = a ∨ t = b
  · obtain rfl := Except.ok.inj ((if_pos ht).symm.trans h)
    obtain rfl | rfl := ht
    · rw [hfirst, ha]
      rfl
    · rw [hsecond, hb]
      rfl
  · exact absurd ((if_neg ht).symm.trans h) (by simp)

/-- A new template, and the template after an update to the same definition. -/
def newBudget (id uuid : String) : Template Binary64 :=
  FileBackedTemplateRegistry.created "Budget" (budget id) "ada" 0 uuid

def nextBudget (id uuid : String) : Template Binary64 :=
  FileBackedTemplateRegistry.updated (newBudget id uuid) (budget id) "ada" 60

theorem exact_budget (a b : Template Binary64) (id : String) :
    @Template.Exact _ (budgetJson a b) (budget id) := by
  have hrepresented : (Number.ofNat 1 : Binary64) = .fin false _ := Ieee.ofNat_of_lt (by decide)
  have hfinite : Number.isFinite (Number.ofNat 1 : Binary64) = true := by
    rw [hrepresented]
    exact Ieee.isFinite_fin _ _
  have hone : @TemplateJson.number _ (budgetJson a b) (Number.ofNat 1) =
      some (Number.ofNat 1) := if_pos hfinite
  exact @Template.Exact.mk _ (budgetJson a b) _ hone hone
    fun _ hr => absurd hr (Option.not_mem_none _)

theorem lawful_newBudget {id uuid : String}
    (hne : budgetText (nextBudget id uuid) ≠ budgetText (newBudget id uuid)) :
    @TemplateJson.Lawful _ (budgetJson (newBudget id uuid) (nextBudget id uuid)) := by
  let := budgetJson (newBudget id uuid) (nextBudget id uuid)
  have hexact := exact_budget (newBudget id uuid) (nextBudget id uuid) id
  have hnew : (newBudget id uuid).Exact := hexact.congr rfl rfl
  have hnext : (nextBudget id uuid).Exact := hexact.congr rfl rfl
  exact lawful_budgetJson hne hnew.reread hnext.reread

open FileBackedTemplateRegistry in
/-- The template is updated to the definition it was created from. -/
theorem exists_run_budget {id uuid : String}
    (hname : Path.IsName ((newBudget id uuid).id ++ ".json"))
    (hne : budgetText (nextBudget id uuid) ≠ budgetText (newBudget id uuid)) :
    ∃ files, @FileBackedTemplateRegistry.Run _ (budgetJson (newBudget id uuid) (nextBudget id uuid))
      ⟨[]⟩ "Budget" (newBudget id uuid).id (budget id) [budget id] [(newBudget id uuid).version]
      files := by
  let := budgetJson (newBudget id uuid) (nextBudget id uuid)
  have hexact := exact_budget (newBudget id uuid) (nextBudget id uuid) id
  have hnew : (newBudget id uuid).Exact := hexact.congr rfl rfl
  have hpath : (⟨[]⟩ : FileBackedTemplateRegistry).templatePath (newBudget id uuid).id =
      [.name ((newBudget id uuid).id ++ ".json")] := hname.join []
  obtain ⟨files, hwrite⟩ := FileSystem.write_empty hname.nul (budgetText (newBudget id uuid)).toUTF8
  rw [← hpath] at hwrite
  obtain ⟨files', hwrite'⟩ := FileSystem.write_of_read (FileSystem.read_of_write hwrite)
    (budgetText (nextBudget id uuid)).toUTF8
  have hfirst := writeTemplate_of_write (t := newBudget id uuid) (if_pos (.inl rfl)) hwrite
  have hsecond := writeTemplate_of_write (t := nextBudget id uuid) (if_pos (.inr rfl)) hwrite'
  have hget := eq_ok_of_toOption
    ((getTemplate_of_write (lawful_newBudget hne) hfirst).trans hnew.reread)
  have hrun : (⟨[]⟩ : FileBackedTemplateRegistry).Run "Budget" (newBudget id uuid).id (budget id)
      ([] ++ [budget id]) ([] ++ shownVersion ((⟨[]⟩ : FileBackedTemplateRegistry).getTemplate
        files (newBudget id uuid).id)) files' :=
    .update (.create ⟨"ada", 0, uuid, _, createTemplate_of_write hfirst⟩)
      ⟨"ada", 60, updateTemplate_of_write hget hsecond⟩
  rw [hget] at hrun
  exact ⟨files', hrun⟩

/-- After a template was created and updated, the registry of files gives it with its history iff
the first definition came without one, the last one with the identifier (or, if there was no update,
the name it was created under) and with numbers that JSON keeps. The other registry does iff the
caller did its work: the last definition has the identifier, the earlier versions, a name for its
version that no other one has, and such numbers. -/
theorem keepsHistory_iff [StringStorage S] [TemplateJson F] (hjson : TemplateJson.Lawful F)
    (hstorage : StringStorage.Lawful S) :
    (∀ (r : FileBackedTemplateRegistry) (name id : String) (first : Template F)
        (later : List (Template F)) (versions : List TemplateVersion)
        (files : FileSystem ByteArray), r.Run name id first later versions files →
      (KeepsHistory id (lastDefinition first later) versions (r.getTemplate files id) ↔
        first.previousVersions = [] ∧ (lastDefinition first later).Exact ∧
          if later = [] then first.name = name else (lastDefinition first later).id = id)) ∧
    ∀ (r : TemplateRegistry) (reader : Option AuthContext) (id : String) (first : Template F)
        (later : List (Template F)) (versions : List TemplateVersion)
        (st : S × FileSystem ByteArray), StringStorage.MayRead S reader "governance" →
      r.Run reader id first later versions st →
      (KeepsHistory id (lastDefinition first later) versions
          (TemplateRegistry.getTemplate st.1 id reader) ↔
        (lastDefinition first later).id = id ∧
          (lastDefinition first later).previousVersions =
            (first :: later).dropLast.map (·.version) ∧
          ((first :: later).map (·.version.version)).Nodup ∧
          (lastDefinition first later).Exact) :=
  ⟨fun _ _ _ _ _ _ _ h => h.keeps_iff hjson,
    fun _ _ _ _ _ _ _ hreader h => h.keeps_iff hjson hstorage hreader⟩

/-- A definition that comes with its identifier. -/
theorem keepsHistory_iff_budget :
    ∃ (_ : TemplateJson Binary64) (r : FileBackedTemplateRegistry) (files : FileSystem ByteArray),
      KeepsHistory "budget" (budget "budget") [(newBudget "budget" "").version]
        (r.getTemplate files "budget") := by
  let := sharedTexts
  let := budgetJson (newBudget "budget" "") (nextBudget "budget" "")
  have hname : Path.IsName ((newBudget "budget" "").id ++ ".json") := by
    constructor <;> decide
  have hne : budgetText (nextBudget "budget" "") ≠ budgetText (newBudget "budget" "") := by
    decide +kernel
  obtain ⟨files, hrun⟩ := exists_run_budget hname hne
  have hlast : lastDefinition (budget "budget") [budget "budget"] = budget "budget" := rfl
  have hiff := (keepsHistory_iff (lawful_newBudget hne) lawful_sharedTexts).1 _ _ _ _ _ _ _ hrun
  rw [hlast] at hiff
  exact ⟨_, _, files, hiff.mpr ⟨rfl, exact_budget _ _ _, rfl⟩⟩

/-- A definition without an identifier, as it was used to create the template. -/
theorem identifier_lost :
    ¬ ∀ (F : Type) [TemplateJson F], TemplateJson.Lawful F → ∀ (r : FileBackedTemplateRegistry)
      (name id : String) (first : Template F) (later : List (Template F))
      (versions : List TemplateVersion) (files : FileSystem ByteArray),
      r.Run name id first later versions files →
        KeepsHistory id (lastDefinition first later) versions (r.getTemplate files id) := by
  intro h
  have hname : Path.IsName
      ((newBudget "" "f47ac10b-58cc-4372-a567-0e02b2c3d479").id ++ ".json") := by
    constructor <;> decide
  have hne : budgetText (nextBudget "" "f47ac10b-58cc-4372-a567-0e02b2c3d479") ≠
      budgetText (newBudget "" "f47ac10b-58cc-4372-a567-0e02b2c3d479") := by
    decide +kernel
  obtain ⟨files, hrun⟩ := exists_run_budget hname hne
  let := budgetJson (newBudget "" "f47ac10b-58cc-4372-a567-0e02b2c3d479")
    (nextBudget "" "f47ac10b-58cc-4372-a567-0e02b2c3d479")
  have hkeeps := h Binary64 (lawful_newBudget hne) _ _ _ _ _ _ _ hrun
  obtain ⟨-, -, hid⟩ := (hrun.keeps_iff (lawful_newBudget hne)).mp hkeeps
  exact absurd hid (by decide)

end Covm
