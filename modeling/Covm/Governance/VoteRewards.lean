import Covm.Compiler.Macros
import Covm.Governance.Durability
import Covm.Governance.VoteAdmission
import Covm.Storage.Room
import Covm.Vm.Reputation

/-!
# The reward for a vote

`handle_vote_command` rewards the voter by a line of code, in which the voter's identity stands in
quotes. The command takes the first word for the identity, together with the quotes: what is
rewarded is never the voter.
-/

namespace Covm

open Partial

namespace Compiler

open Text (trim words isWhitespace)

/-- The first word of a text in quotes that another text follows is not the text. -/
theorem words_reward (voter rest : List Char) :
    ∃ word args, words ('"' :: (voter ++ '"' :: ' ' :: rest)) = word :: args ∧ word ≠ voter := by
  by_cases h : ∀ c ∈ voter, isWhitespace c = false
  · have hword : ∀ c ∈ '"' :: (voter ++ ['"']), isWhitespace c = false := by
      intro c hc
      simp only [List.mem_cons, List.mem_append, List.not_mem_nil, or_false] at hc
      rcases hc with rfl | hc | rfl
      · exact isWhitespace_quote
      · exact h c hc
      · exact isWhitespace_quote
    have hwords := Text.words_append_space hword (List.cons_ne_nil _ _) isWhitespace_space rest
    refine ⟨'"' :: (voter ++ ['"']), words rest, ?_, fun heq => ?_⟩
    · rw [← hwords, List.cons_append, List.append_assoc]
      rfl
    · have hlength := congrArg List.length heq
      rw [List.length_cons, List.length_append] at hlength
      omega
  · obtain ⟨before, c, after, rfl, hbefore, hc⟩ := Text.exists_first_space h
    have hword : ∀ d ∈ '"' :: before, isWhitespace d = false :=
      List.forall_mem_cons.mpr ⟨isWhitespace_quote, hbefore⟩
    refine ⟨'"' :: before, words (after ++ '"' :: ' ' :: rest), ?_, fun heq => ?_⟩
    · rw [← Text.words_append_space hword (List.cons_ne_nil _ _) hc, List.cons_append,
        List.append_assoc, List.cons_append]
    · have hmem : c ∈ '"' :: before := by
        rw [heq]
        exact List.mem_append_right _ List.mem_cons_self
      exact absurd hc (by rw [hword c hmem]; exact Bool.false_ne_true)

section
variable {F : Type} [Number F] {command s : String} {c : Char} {rest : List Char}

/-- A program of one line, a command and a text in quotes. -/
theorem parseDsl_literalLine (hcommand : command.toList = c :: rest)
    (hspace : ∀ d ∈ command.toList, isWhitespace d = false) (hc : c ≠ 't' ∧ c ≠ 'g')
    (hfeed : '\n' ∉ literalLine command s) :
    (parseDsl (String.ofList (literalLine command s)) : Parse (List (Op F) × _)) =
      (parseLine (literalLine command s) ⟨1, 1⟩).map fun op => (pushFront op [], .default) := by
  have hfirst : isWhitespace c = false := hspace c (by simp [hcommand])
  have hline : literalLine command s = c :: (rest ++ ' ' :: '"' :: s.toList ++ ['"']) := by
    simp [literalLine, quoted, hcommand]
  have htrim : trim (literalLine command s) = literalLine command s := by
    rw [hline]
    exact Text.trim_of_ends hfirst isWhitespace_quote _
  have hblank : ¬ Text.isBlank (literalLine command s) = true := by
    rw [hline, Text.isBlank, List.all_cons, hfirst, Bool.false_and]
    exact Bool.false_ne_true
  have hindent : Text.indent (literalLine command s) = 0 := by
    rw [hline, Text.indent, List.takeWhile_cons_of_neg (by rw [hfirst]; exact Bool.false_ne_true)]
    rfl
  have hdirective : ¬ IsDirective (.start : DslState F) (literalLine command s) := by
    rw [hline]
    rintro (⟨⟨_, h⟩, -⟩ | ⟨_, h⟩ | h | h | h)
    · exact hc.1 (List.cons_eq_cons.mp h).1.symm
    · exact hc.2 (List.cons_eq_cons.mp h).1.symm
    · exact hc.2 (List.cons_eq_cons.mp h).1
    · exact Bool.false_ne_true h
    · exact Bool.false_ne_true h
  have hcolon : ¬ endsInColon (literalLine command s) = true := by
    rw [hline, endsInColon, ← List.cons_append, List.getLast?_append, List.getLast?_singleton,
      Option.some_or]
    decide
  have hlines : Text.lines '\n' '\r' (literalLine command s) = [literalLine command s] :=
    Text.lines_of_notMem hfeed (by rw [hline]; exact List.cons_ne_nil _ _)
  have hnone (pos : SourcePosition) :
      readDirective pos (.start : DslState F) (trim (literalLine command s)) = .ok none := by
    rw [htrim]
    exact readDirective_eq_none.mpr hdirective
  show solveDsl ⟨0, Text.lines '\n' '\r' (String.ofList (literalLine command s)).toList⟩ .start = _
  rw [String.toList_ofList, hlines, solveDsl_eq, dslLoop_cons rfl, if_neg hblank,
    Rec.eval_bind, Rec.eval_ofExcept, hnone, ok_bind, Rec.eval_bind, parseTopLine, htrim,
    if_neg hcolon, parseStatement, Rec.eval_bind, Rec.eval_ofExcept, hindent]
  cases hparse : (parseLine (literalLine command s) ⟨0 + 1, 0 + 1⟩ : Parse (Op F)) with
  | error e => rfl
  | ok op =>
    rw [ok_bind, Rec.eval_pure, ok_bind, Rec.eval_bind, eval_solveDsl, solveDsl_nil rfl]
    rfl

end

end Compiler

/-! ## One increment as a program -/

namespace VMExecution

theorem Increments.congr {F S : Type} [Number F] [StorageBackend S] {x x' : VMExecution S}
    {identityId : String} {amount : Option F} {b b' : S} (hauth : x'.authContext = x.authContext)
    (hns : x'.ns = x.ns) (h : Increments x identityId amount b b') :
    Increments x' identityId amount b b' := by
  obtain ⟨n, current, hn, hread, hsum, hset⟩ := h
  unfold Increments setSum
  rw [hauth, hns]
  exact ⟨n, current, hn, hread, hsum, hset⟩

end VMExecution

namespace VM

section increment
variable {F S : Type} [Number F] [StorageBackend S] [SerdeJson] {identityId : String}
  {amount : Option F} {reason : Option String} {vm vm' : VM F S} {b : S}

/-- What is done besides shows in the trace and the output only. -/
theorem execute_increment (fuel : Nat) (identityId : String) (amount : Option F)
    (reason : Option String) (vm : VM F S) : ∃ vm₁, unannounced vm₁ = unannounced vm ∧
      (execute (fuel + 1) [.incrementReputation identityId amount reason] : Exec F S Unit) vm =
        (onExecutor (VMExecution.executeIncrementReputation identityId
          (amount.map TypedValue.number)) >>= fun _ => recordStackAfter) vm₁ := by
  obtain ⟨vm₁, hsame, hannounce⟩ :=
    announce_apply (.incrementReputation identityId amount reason) vm
  rw [show isSimulated (.incrementReputation identityId amount reason : Op F) = false from rfl,
    Bool.and_false, if_neg Bool.false_ne_true] at hannounce
  refine ⟨vm₁, hsame, ?_⟩
  show executeOps (executeInner fuel) fuel .none [_] vm = _
  rw [executeOps_cons, Runner.next, fuelled_lift, bind_assoc, Comp.bind_of_ok hannounce,
    if_neg Bool.false_ne_true]
  show ((executePlain (.incrementReputation identityId amount reason) >>= fun flow => _) >>=
    fun flow => _ : Exec F S Unit) vm₁ = _
  rw [executePlain_of_basic rfl]
  simp only [bind_assoc, pure_bind, if_true, fuelled_lift, Flow.andThen, executeOps,
    bind_pure_unit]

theorem execute_of_increments {b' : S} (reason : Option String)
    (hb : vm.executor.storageBackend = some b)
    (h : VMExecution.Increments vm.executor identityId amount b b') :
    ∃ vm', (execute 1 [.incrementReputation identityId amount reason] : Exec F S Unit) vm =
      .ok () vm' := by
  obtain ⟨vm₁, hsame, hexec⟩ := execute_increment 0 identityId amount reason vm
  have hbackend : vm₁.executor.storageBackend = some b :=
    (congrArg (·.executor.storageBackend) hsame).trans hb
  have hauth : vm₁.executor.authContext = vm.executor.authContext :=
    congrArg (·.executor.authContext) hsame
  have hincrements := h.congr hauth (congrArg (·.executor.ns) hsame)
  obtain ⟨x', hx'⟩ := VMExecution.execute_of_increments hbackend hincrements
  obtain ⟨vm', hrecord⟩ := recordStackAfter_ok { vm₁ with executor := x' }
  have hop : (onExecutor (VMExecution.executeIncrementReputation identityId
      (amount.map TypedValue.number)) : Exec F S Unit) vm₁ = .ok () { vm₁ with executor := x' } := by
    unfold onExecutor Comp.zoom
    rw [hx']
  exact ⟨vm', hexec.trans ((Comp.bind_of_ok hop).trans hrecord)⟩

theorem increments_of_execute {fuel : Nat} (hb : vm.executor.storageBackend = some b)
    (h : (execute fuel [.incrementReputation identityId amount reason] : Exec F S Unit) vm =
      .ok () vm') :
    ∃ b', VMExecution.Increments vm.executor identityId amount b b' ∧
      vm'.executor.storageBackend = some b' ∧
      vm'.executor.authContext = vm.executor.authContext ∧ vm'.executor.ns = vm.executor.ns := by
  cases fuel with
  | zero => cases h
  | succ fuel =>
    obtain ⟨vm₁, hsame, hexec⟩ := execute_increment fuel identityId amount reason vm
    have hbackend : vm₁.executor.storageBackend = some b :=
      (congrArg (·.executor.storageBackend) hsame).trans hb
    have hauth : vm₁.executor.authContext = vm.executor.authContext :=
      congrArg (·.executor.authContext) hsame
    have hns : vm₁.executor.ns = vm.executor.ns := congrArg (·.executor.ns) hsame
    obtain ⟨u, vm₂, hincrement, hrecord⟩ := Comp.bind_eq_ok_iff.mp (hexec.symm.trans h)
    unfold onExecutor Comp.zoom at hincrement
    cases hx : (VMExecution.executeIncrementReputation identityId
      (amount.map TypedValue.number) : ExecutorOp F S Unit) vm₁.executor with
    | error e x' =>
      rw [hx] at hincrement
      cases hincrement
    | ok u x' =>
      rw [hx] at hincrement
      cases hincrement
      obtain ⟨b', hincrements, hb', hauth', hns'⟩ := VMExecution.increments_of_execute hbackend hx
      have hexecutor : vm'.executor = x' :=
        congrArg (·.executor) (recordStackAfter_untraced.ok hrecord)
      rw [hexecutor]
      exact ⟨b', hincrements.congr hauth.symm hns.symm, hb', hauth'.trans hauth, hns'.trans hns⟩

end increment

end VM

/-! ## What a vote leaves alone -/

/-- What is kept under a key is the same. -/
def StorageBackend.SameUnder {S : Type} [StorageBackend S] (b b' : S) (ns key : String) : Prop :=
  ∀ auth, StorageBackend.contains b' auth ns key = StorageBackend.contains b auth ns key ∧
    StorageBackend.get b' auth ns key = StorageBackend.get b auth ns key

/-- A fork, what is written to its clone and the end of a transaction change no other keys. -/
class ForkableBackend.Keyed (S : Type) [ForkableBackend S] : Prop extends StorageBackend.Keyed S
    where
  begun {b clone : S} (ns key : String) : ForkableBackend.beginTransaction b = .ok () clone →
    StorageBackend.SameUnder b (rejoin b clone) ns key
  written {auth : Option AuthContext} {ns key ns' key' : String} {bytes : ByteArray}
    {b clone clone' : S} : ForkableBackend.beginTransaction b = .ok () clone →
      StorageBackend.set auth ns key bytes clone = .ok () clone' → (ns', key') ≠ (ns, key) →
        StorageBackend.SameUnder (rejoin b clone) (rejoin (rejoin b clone) clone') ns' key'
  committed {b b' : S} (ns key : String) : ForkableBackend.commitTransaction b = .ok () b' →
    StorageBackend.SameUnder b b' ns key

instance InMemoryStorage.keyedForks : ForkableBackend.Keyed InMemoryStorage where
  begun _ _ _ _ := ⟨rfl, rfl⟩
  written _ _ _ _ := ⟨rfl, rfl⟩
  committed := by
    intro s s' ns key h auth
    have hdata : s'.data = s.data := by
      change InMemoryStorage.commitTransaction s = .ok () s' at h
      unfold InMemoryStorage.commitTransaction at h
      cases hlogs : s.transactionStack with
      | nil =>
        rw [hlogs] at h
        cases h
      | cons log rest =>
        rw [hlogs] at h
        cases h
        rfl
    constructor
    · show InMemoryStorage.contains s' auth ns key = InMemoryStorage.contains s auth ns key
      rw [InMemoryStorage.contains, InMemoryStorage.contains, hdata]
    · show InMemoryStorage.get s' auth ns key = InMemoryStorage.get s auth ns key
      rw [InMemoryStorage.get, InMemoryStorage.get, hdata]

namespace StorageBackend.SameUnder
variable {S : Type} [StorageBackend S] {b b' b'' : S} {ns key : String}

theorem trans (h : SameUnder b b' ns key) (h' : SameUnder b' b'' ns key) :
    SameUnder b b'' ns key :=
  fun auth => ⟨(h' auth).1.trans (h auth).1, (h' auth).2.trans (h auth).2⟩

theorem readNumber (h : SameUnder b b' ns key) (auth : Option AuthContext) :
    EconomicOperations.readNumber b' auth ns key = EconomicOperations.readNumber b auth ns key := by
  unfold EconomicOperations.readNumber
  rw [(h auth).1, (h auth).2]

end StorageBackend.SameUnder

namespace Governance

section votes
variable {F S : Type} [ForkableBackend S]

theorem prepareVote_eq_ok [DateText] {now : DateTime} {id voter vote : String}
    {delegate : Option String} {vm vm' : VM F S} {write : PendingWrite S JsonValue}
    (h : prepareVote now id voter vote delegate vm = .ok write vm') :
    ∃ b clone, vm.executor.storageBackend = some b ∧
      ForkableBackend.beginTransaction b = .ok () clone ∧ vm' = vm.rejoined clone ∧
      write = ⟨clone, vm.executor.authContext, vm.executor.ns, voteKey id voter,
        voteData now voter vote delegate⟩ := by
  unfold prepareVote at h
  obtain ⟨⟨forked, storage⟩, _, hfork, hrest⟩ := Comp.bind_eq_ok_iff.mp h
  obtain ⟨b, hbackend, hbegin, rfl, rfl⟩ := forkStorage_eq_ok_iff.mp hfork
  obtain ⟨found, _, hfound, hwrite⟩ := Comp.bind_eq_ok_iff.mp hrest
  obtain ⟨-, rfl⟩ := ofResult_eq_ok_iff.mp hfound
  cases found with
  | false => simp [raiseText, raiseError, Comp.bind_apply] at hwrite
  | true =>
    cases hwrite
    exact ⟨b, storage, hbackend, hbegin, rfl, rfl⟩

theorem save_eq_ok {T : Type} [Serde T] {context : String} {w : PendingWrite S T}
    {vm vm' : VM F S} {u : Unit} (h : w.save context vm = .ok u vm') :
    ∃ bytes clone, StorageBackend.set w.auth w.ns w.key bytes w.storage = .ok () clone ∧
      vm' = vm.rejoined clone := by
  obtain ⟨clone, hstore, rfl⟩ := onClone_eq_ok_iff.mp h
  unfold storing StorageExtensions.setJson at hstore
  cases hset : ((do
      let bytes ← StorageM.query fun _ => StorageExtensions.encode w.value
      StorageBackend.set w.auth w.ns w.key bytes) : StorageM S Unit) w.storage with
  | error e s =>
    rw [hset] at hstore
    cases e <;> cases hstore
  | ok u' s =>
    rw [hset] at hstore
    cases hstore
    obtain ⟨bytes, s', hquery, hwrite⟩ := bind_eq_ok.mp hset
    unfold StorageM.query at hquery
    cases hencode : (StorageExtensions.encode w.value : Except StorageError ByteArray) with
    | error e =>
      rw [hencode] at hquery
      cases hquery
    | ok bytes' =>
      rw [hencode] at hquery
      cases hquery
      exact ⟨bytes, _, hwrite, rfl⟩

theorem save_of_set {T : Type} [Serde T] {w : PendingWrite S T} {bytes : ByteArray} {clone : S}
    (hbytes : Serde.toVec w.value = .ok bytes)
    (hset : StorageBackend.set w.auth w.ns w.key bytes w.storage = .ok () clone)
    (context : String) (vm : VM F S) : w.save context vm = .ok () (vm.rejoined clone) := by
  have hwrite : StorageExtensions.setJson w.auth w.ns w.key w.value w.storage = .ok () clone := by
    refine (StorageM.bind_of_ok (StorageM.query_of_ok ?_)).trans hset
    rw [StorageExtensions.encode, hbytes]
  refine onClone_eq_ok_iff.mpr ⟨clone, ?_, rfl⟩
  rw [storing, hwrite]

omit [ForkableBackend S] in
theorem logNode_eq_ok [Number F] [NodeHash F] {now : DateTime}
    {node : DagLedger F → List String × NodeData F} {vm vm' : VM F S} {u : Unit}
    (h : logNode now node vm = .ok u vm') : vm'.executor = vm.executor := by
  unfold logNode at h
  split at h
  · cases h
    rfl
  · split at h
    · cases h
    · cases h
      rfl

omit [ForkableBackend S] in
/-- The ledger takes nodes since 1970. -/
theorem logNode_of_nonneg [Number F] [NodeHash F] {now : DateTime} (h : 0 ≤ now)
    (node : DagLedger F → List String × NodeData F) (vm : VM F S) :
    ∃ vm', logNode now node vm = .ok () vm' := by
  have htime : ∃ t, (ledgerTime now : Except (GovernanceError F) Nat) = .ok t := by
    refine ⟨_, if_neg (not_lt.mpr (Int.ediv_nonneg h ?_))⟩
    decide
  obtain ⟨t, ht⟩ := htime
  unfold logNode
  cases vm.dag with
  | none => exact ⟨vm, rfl⟩
  | some ledger =>
    dsimp only
    rw [ht]
    exact ⟨_, rfl⟩

/-- A vote that is cast changes what is kept under its own key. -/
theorem castVote_eq_ok [Number F] [NodeHash F] [DateText] [Serde JsonValue]
    [ForkableBackend.Keyed S] {now ledgerNow : DateTime} {id voter vote : String}
    {delegate : Option String} {vm vm' : VM F S} {u : Unit}
    (h : castVote now ledgerNow id voter vote delegate vm = .ok u vm') :
    vm'.executor.authContext = vm.executor.authContext ∧ vm'.executor.ns = vm.executor.ns ∧
      ∃ b b', vm.executor.storageBackend = some b ∧ vm'.executor.storageBackend = some b' ∧
        ∀ ns key, (ns, key) ≠ (vm.executor.ns, voteKey id voter) →
          StorageBackend.SameUnder b b' ns key := by
  unfold castVote at h
  obtain ⟨write, _, hprepare, hrest⟩ := Comp.bind_eq_ok_iff.mp h
  obtain ⟨b, clone, hbackend, hbegin, rfl, rfl⟩ := prepareVote_eq_ok hprepare
  obtain ⟨_, _, hsave, hrest⟩ := Comp.bind_eq_ok_iff.mp hrest
  obtain ⟨bytes, clone', hset, rfl⟩ := save_eq_ok hsave
  obtain ⟨_, vm₁, hcommit, hlog⟩ := Comp.bind_eq_ok_iff.mp hrest
  have hbackend' : ((vm.rejoined clone).rejoined clone').executor.storageBackend =
      some (rejoin (rejoin b clone) clone') := by
    show (vm.executor.storageBackend.map _).map _ = _
    rw [hbackend]
    rfl
  obtain ⟨-, own, hown, rfl⟩ :=
    (VM.endTransaction_eq_ok_iff hbackend' _ _).mp (ofVm_eq_ok_iff.mp hcommit)
  rw [logNode_eq_ok hlog]
  refine ⟨rfl, rfl, b, own, hbackend, rfl, fun ns key hkey => ?_⟩
  have hbegun := ForkableBackend.Keyed.begun ns key hbegin
  have hwritten := ForkableBackend.Keyed.written hbegin hset hkey
  exact (hbegun.trans hwritten).trans (ForkableBackend.Keyed.committed ns key hown)

end votes

theorem voteKey_ne (id voter other : String) :
    EconomicOperations.reputationKey other ≠ voteKey id voter := by
  intro h
  have hreputation : (EconomicOperations.reputationKey other).toList.head? = some 'i' := by
    show ("identities/" ++ other ++ "/reputation").toList.head? = _
    rw [String.toList_append, String.toList_append]
    rfl
  have hvote : (voteKey id voter).toList.head? = some 'g' := by
    show ("governance_proposals/" ++ id ++ "/votes" ++ "/" ++ voter).toList.head? = _
    rw [String.toList_append, String.toList_append, String.toList_append, String.toList_append]
    rfl
  rw [h, hvote] at hreputation
  exact absurd (Option.some.inj hreputation) (by decide)

/-! ## The reward -/

open Compiler (parseLine parseDsl literalLine)

/-- The compiler of the DSL; a panic of it is shown as an error, too. -/
@[reducible] def compilerDsl {F : Type} [Number F] : Dsl F where
  parseDsl source :=
    match parseDsl source with
    | .ok (ops, _) => .ok ops
    | .error (.error e) => .error e.display
    | .error .panic => .error "panic"

/-- The line of code that is to reward the voter. -/
def rewardText (voter id : String) : String :=
  s!"increment_reputation \"{voter}\" reason=\"Voted on proposal {id}\""

def rewardLine (voter id : String) : List Char := (rewardText voter id).toList

theorem rewardLine_eq (voter id : String) : rewardLine voter id =
    literalLine "increment_reputation" (voter ++ "\" reason=\"Voted on proposal " ++ id) := by
  have hcommand : "increment_reputation \"".toList = "increment_reputation".toList ++ [' ', '"'] :=
    rfl
  have hquote : "\"".toList = ['"'] := rfl
  show ("increment_reputation \"" ++ voter ++ "\" reason=\"Voted on proposal " ++ id ++ "\"").toList =
    "increment_reputation".toList ++
      ' ' :: '"' :: ((voter ++ "\" reason=\"Voted on proposal " ++ id).toList ++ ['"'])
  generalize "\" reason=\"Voted on proposal " = middle
  rw [String.toList_append, String.toList_append, String.toList_append, String.toList_append,
    String.toList_append, String.toList_append, hcommand, hquote]
  generalize "increment_reputation".toList = command
  simp

/-- Both texts stand in one line. -/
def OneLine (voter id : String) : Prop := '\n' ∉ voter.toList ∧ '\n' ∉ id.toList

theorem isWhitespace_command :
    ∀ c ∈ "increment_reputation".toList, Text.isWhitespace c = false := by
  simp [Text.isWhitespace]

section text
variable {F : Type} [Number F] {voter id : String} {pos : Compiler.SourcePosition} {op : Op F}

theorem parseLine_reward (voter id : String) (pos : Compiler.SourcePosition) :
    (parseLine (rewardLine voter id) pos : Compiler.Parse (Op F)) =
      Compiler.parseIncrementReputation (rewardLine voter id) pos
        (Text.words (Compiler.quoted (voter ++ "\" reason=\"Voted on proposal " ++ id))) := by
  rw [rewardLine_eq, Compiler.parseLine_literal pos rfl isWhitespace_command (by decide)]
  rfl

/-- The first word is taken for the identity. -/
theorem name_ne_of_parseLine (h : parseLine (rewardLine voter id) pos = .ok op) :
    ∃ name amount reason, op = .incrementReputation name amount reason ∧ name ≠ voter := by
  have hmiddle : "\" reason=\"Voted on proposal ".toList =
      '"' :: ' ' :: "reason=\"Voted on proposal ".toList := rfl
  have hquoted : Compiler.quoted (voter ++ "\" reason=\"Voted on proposal " ++ id) =
      '"' :: (voter.toList ++
        '"' :: ' ' :: ("reason=\"Voted on proposal ".toList ++ id.toList ++ ['"'])) := by
    unfold Compiler.quoted
    rw [String.toList_append, String.toList_append, hmiddle]
    generalize "reason=\"Voted on proposal ".toList = middle
    simp
  rw [parseLine_reward, hquoted] at h
  obtain ⟨word, args, hwords, hne⟩ := Compiler.words_reward voter.toList
    ("reason=\"Voted on proposal ".toList ++ id.toList ++ ['"'])
  rw [hwords] at h
  unfold Compiler.parseIncrementReputation at h
  simp only [Compiler.argument, Compiler.ok_bind] at h
  cases hparameters : (Compiler.reputationParameters (rewardLine voter id) pos none none args :
      Compiler.Parse (Option F × Option String)) with
  | error e =>
    rw [hparameters] at h
    cases h
  | ok parameters =>
    rw [hparameters] at h
    cases h
    refine ⟨String.ofList word, parameters.1, parameters.2, rfl, ?_⟩
    rintro rfl
    exact hne String.toList_ofList.symm

theorem parseDsl_reward (h : OneLine voter id) {ops : List (Op F)} :
    compilerDsl.parseDsl (rewardText voter id) = .ok ops ↔
      ∃ op, parseLine (rewardLine voter id) ⟨1, 1⟩ = .ok op ∧ ops = [op] := by
  have htext : rewardText voter id = String.ofList (rewardLine voter id) :=
    String.ofList_toList.symm
  have hfeed : '\n' ∉ literalLine "increment_reputation"
      (voter ++ "\" reason=\"Voted on proposal " ++ id) := by
    have hcommand : '\n' ∉ "increment_reputation".toList := by simp
    have hmiddle : '\n' ∉ "\" reason=\"Voted on proposal ".toList := by simp
    simp only [literalLine, Compiler.quoted, String.toList_append, List.mem_append, List.mem_cons,
      List.not_mem_nil, hcommand, hmiddle, h.1, h.2]
    decide
  unfold compilerDsl
  dsimp only
  rw [htext, rewardLine_eq,
    Compiler.parseDsl_literalLine rfl isWhitespace_command (by decide) hfeed,
    ← rewardLine_eq]
  cases hparse : (parseLine (rewardLine voter id) ⟨1, 1⟩ : Compiler.Parse (Op F)) with
  | error e =>
    cases e <;> simp [Except.map]
  | ok op =>
    obtain ⟨name, amount, reason, rfl, -⟩ := name_ne_of_parseLine hparse
    simp [Except.map, Compiler.pushFront, Compiler.isNop, eq_comm]

end text

section rewards
variable {F S I : Type} [ForkableBackend S]

/-- What `get_reputation` of a VM's storage answers, if there is one and it succeeds. -/
def reputationOf (vm : VM F S) (auth : Option AuthContext) (ns identity : String) : Option Nat :=
  vm.executor.storageBackend.bind fun b =>
    EconomicOperations.reportedReputation b auth ns identity

/-- The voter's reputation has grown by one, and no other has changed. -/
structure Rewarded (vm vm' : VM F S) (voter : String) : Prop where
  grown : ∃ current, reputationOf vm vm.executor.authContext vm.executor.ns voter = some current ∧
    reputationOf vm' vm.executor.authContext vm.executor.ns voter = some (current + 1)
  others : ∀ auth ns other, (ns, other) ≠ (vm.executor.ns, voter) →
    reputationOf vm' auth ns other = reputationOf vm auth ns other

variable [Number F] [NodeHash F] [SerdeJson] [DateText] [Serde (ProposalLifecycle I)]
  [Serde JsonValue]

/-- A vote that succeeds rewards the voter. -/
def RewardsVoter (I : Type) [Serde (ProposalLifecycle I)] (now votedAt ledgerNow : DateTime)
    (auth : AuthContext) (id choice : String) (delegate : Option String) (vm : VM F S) : Prop :=
  let _ : Dsl F := compilerDsl
  ∀ fuel vm', handleVoteCommand I fuel now votedAt ledgerNow auth id choice delegate vm =
    .ok () vm' → Rewarded vm vm' auth.currentIdentityDid

/-- The vote is admitted and cast, and what the line asks for goes through after it. -/
def GoesThrough (I : Type) [Serde (ProposalLifecycle I)] (now votedAt ledgerNow : DateTime)
    (auth : AuthContext) (id choice : String) (delegate : Option String) (vm : VM F S) : Prop :=
  ∃ (vote : String) (vm₁ : VM F S) (name : String) (amount : Option F) (reason : Option String)
    (b b' : S), admitVote I now auth id choice vm = .ok vote vm ∧
    castVote votedAt ledgerNow id auth.currentIdentityDid vote delegate vm = .ok () vm₁ ∧
    parseLine (rewardLine auth.currentIdentityDid id) ⟨1, 1⟩ =
      .ok (.incrementReputation name amount reason) ∧
    vm₁.executor.storageBackend = some b ∧ vm₁.executor.Increments name amount b b'

variable {now votedAt ledgerNow : DateTime} {auth : AuthContext} {id choice : String}
  {delegate : Option String} {vm vm' : VM F S}

theorem handleVoteCommand_eq_ok_iff [Dsl F] {fuel : Nat} :
    handleVoteCommand I fuel now votedAt ledgerNow auth id choice delegate vm = .ok () vm' ↔
      ∃ vote vm₁ ops, admitVote I now auth id choice vm = .ok vote vm ∧
        castVote votedAt ledgerNow id auth.currentIdentityDid vote delegate vm = .ok () vm₁ ∧
        Dsl.parseDsl (rewardText auth.currentIdentityDid id) = .ok ops ∧
        VM.execute fuel ops vm₁ = .ok () vm' := by
  unfold handleVoteCommand rewardText
  simp only [Comp.bind_eq_ok_iff]
  generalize (Dsl.parseDsl _ : Except String (List (Op F))) = parsed
  cases parsed with
  | error e => simp [raiseText, raiseError]
  | ok ops =>
    constructor
    · rintro ⟨vote, _, hadmit, u, vm₁, hcast, hexec⟩
      obtain ⟨rfl, -⟩ := admitVote_eq_ok_iff.mp hadmit
      exact ⟨vote, vm₁, ops, hadmit, hcast, rfl, ofVm_eq_ok_iff.mp hexec⟩
    · rintro ⟨vote, vm₁, ops', hadmit, hcast, hops, hexec⟩
      cases hops
      exact ⟨vote, vm, hadmit, (), vm₁, hcast, ofVm_eq_ok_iff.mpr hexec⟩

omit [SerdeJson] in
/-- The voter's reputation is the same after the vote and the reward. -/
theorem reputationOf_voter [ForkableBackend.Keyed S] {vote name : String} {amount : Option F}
    {b b' : S} {vm₁ : VM F S}
    (hcast : castVote votedAt ledgerNow id auth.currentIdentityDid vote delegate vm = .ok () vm₁)
    (hname : name ≠ auth.currentIdentityDid) (hb : vm₁.executor.storageBackend = some b)
    (hincrements : vm₁.executor.Increments name amount b b')
    (hb' : vm'.executor.storageBackend = some b') :
    reputationOf vm' vm.executor.authContext vm.executor.ns auth.currentIdentityDid =
      reputationOf vm vm.executor.authContext vm.executor.ns auth.currentIdentityDid := by
  obtain ⟨hauth, hns, b₀, b₁, hb₀, hb₁, hsame⟩ := castVote_eq_ok hcast
  cases hb.symm.trans hb₁
  obtain ⟨n, current, -, -, -, hset⟩ := hincrements
  have hkey : (vm.executor.ns, EconomicOperations.reputationKey auth.currentIdentityDid) ≠
      (vm₁.executor.ns, EconomicOperations.reputationKey name) := by
    intro heq
    exact hname (EconomicOperations.reputationKey_injective (Prod.mk.inj heq).2).symm
  have hvote := hsame vm.executor.ns (EconomicOperations.reputationKey auth.currentIdentityDid)
    fun heq => voteKey_ne _ _ _ (Prod.mk.inj heq).2
  have hreward : StorageBackend.SameUnder b b' vm.executor.ns
      (EconomicOperations.reputationKey auth.currentIdentityDid) :=
    fun _ => StorageBackend.Keyed.others hset hkey
  unfold reputationOf
  rw [hb', hb₀]
  show EconomicOperations.reportedReputation b' _ _ _ =
    EconomicOperations.reportedReputation b₀ _ _ _
  rw [EconomicOperations.reportedReputation_eq, EconomicOperations.reportedReputation_eq,
    (hvote.trans hreward).readNumber]

/-- A vote and a reward that both succeed do not reward the voter. -/
theorem not_rewardsVoter [ForkableBackend.Keyed S] (hline : OneLine auth.currentIdentityDid id)
    (h : GoesThrough I now votedAt ledgerNow auth id choice delegate vm) :
    ¬ RewardsVoter I now votedAt ledgerNow auth id choice delegate vm := by
  intro hrewards
  obtain ⟨vote, vm₁, name, amount, reason, b, b', hadmit, hcast, hparse, hb, hincrements⟩ := h
  obtain ⟨_, _, _, heq, hname⟩ := name_ne_of_parseLine hparse
  cases heq
  obtain ⟨vm', hexec⟩ := VM.execute_of_increments reason hb hincrements
  obtain ⟨b₁, hincrements', hb₁, -⟩ := VM.increments_of_execute hb hexec
  have hops := (parseDsl_reward hline).mpr ⟨_, hparse, rfl⟩
  let _ : Dsl F := compilerDsl
  have hok := handleVoteCommand_eq_ok_iff.mpr ⟨vote, vm₁, _, hadmit, hcast, hops, hexec⟩
  obtain ⟨current, hbefore, hafter⟩ := (hrewards 1 vm' hok).grown
  rw [reputationOf_voter hcast hname hb hincrements' hb₁, hbefore] at hafter
  have hsame := Option.some.inj hafter
  omega

/-- A vote rewards the voter iff the vote or the reward fails. -/
theorem rewardsVoter_iff [ForkableBackend.Keyed S] (hline : OneLine auth.currentIdentityDid id) :
    RewardsVoter I now votedAt ledgerNow auth id choice delegate vm ↔
      ¬ GoesThrough I now votedAt ledgerNow auth id choice delegate vm := by
  refine ⟨fun hrewards h => not_rewardsVoter hline h hrewards, fun h => ?_⟩
  let _ : Dsl F := compilerDsl
  intro fuel vm' hok
  refine absurd ?_ h
  obtain ⟨vote, vm₁, ops, hadmit, hcast, hops, hexec⟩ := handleVoteCommand_eq_ok_iff.mp hok
  obtain ⟨op, hparse, rfl⟩ := (parseDsl_reward hline).mp hops
  obtain ⟨name, amount, reason, rfl, -⟩ := name_ne_of_parseLine hparse
  obtain ⟨-, -, b₀, b, -, hb, -⟩ := castVote_eq_ok hcast
  obtain ⟨b', hincrements, -⟩ := VM.increments_of_execute hb hexec
  exact ⟨vote, vm₁, name, amount, reason, b, b', hadmit, hcast, hparse, hb, hincrements⟩

end rewards

/-! ### A vote of bob's -/

section bob
open InMemoryStorage

/-- A clone of the storage, in whose transaction nothing has happened. -/
def votingStorage : InMemoryStorage := { roofStorage .voting with transactionStack := [[]] }

/-- A fork of the VM in which the vote on the proposal is open. -/
def rewardVm : VM Binary64 InMemoryStorage := (roofVm .voting).forkedTo votingStorage

theorem admitVote_bob : admitVote String 0 (.new "bob") "p1" "yes" rewardVm =
    .ok "yes" rewardVm := by
  have hbackend : rewardVm.executor.storageBackend = some votingStorage := rfl
  have hlifecycle : getProposalLifecycle rewardVm "p1" = .ok (roofRepair .voting) :=
    getProposalLifecycle_of_getJson hbackend (getJson_roofRepair rfl)
  have hdeliberated : Deliberated 0 (roofRepair .voting) := fun _ hd => by cases hd
  have hchoice : parseChoice "yes" = some "yes" := by decide +kernel
  exact admitVote_eq_ok_iff.mpr ⟨rfl,
    ⟨_, hbackend, contains_roofStorage .voting (some (.new "bob"))⟩,
    ⟨roofRepair .voting, hlifecycle, hdeliberated⟩, hchoice⟩

/-- The account has room for the text of a vote. -/
theorem writable_roofStorage {s : InMemoryStorage}
    (haccounts : s.accounts = (roofStorage .voting).accounts) (key : String) {bytes : ByteArray}
    (hsize : bytes.size ≤ 1000) : s.Writable (some admin) "default" key bytes := by
  refine ⟨admin, rfl, admin_permitted _ _, fun _ => ⟨⟨"admin", 1000, 0, 0⟩, ?_, ?_⟩⟩
  · rw [haccounts]
    rfl
  · refine decide_eq_true ?_
    show saturatingAdd 0 (bytes.size - _) ≤ 1000
    unfold saturatingAdd
    omega

theorem castVote_bob : ∃ vm₁, castVote 0 0 "p1" "bob" "yes" none rewardVm = .ok () vm₁ ∧
    vm₁.executor = (rewardVm.ended (roofStorage .voting)).executor := by
  have hprepared : ∃ write vm₁, prepareVote 0 "p1" "bob" "yes" none rewardVm = .ok write vm₁ :=
    (prepareVote_ok_iff 0).mpr ⟨votingStorage, _, rfl, rfl,
      contains_roofStorage .voting (some admin)⟩
  obtain ⟨write, vm₁, hprepare⟩ := hprepared
  obtain ⟨b, clone, hb, hbegin, rfl, rfl⟩ := prepareVote_eq_ok hprepare
  cases hb
  cases hbegin
  have hroom : ({ votingStorage with transactionStack := [[], []] } : InMemoryStorage).Writable
      (some admin) "default" (voteKey "p1" "bob")
      ("\x7b\"delegated_by\":null,\"timestamp\":\"1970-01-01T00:00:00+00:00\"," ++
        "\"vote\":\"yes\",\"voter\":\"bob\"\x7d").toUTF8 :=
    writable_roofStorage rfl _ (by decide)
  obtain ⟨clone', hset⟩ := set_ok_iff.mpr hroom
  have hcommit : (ofVm VM.commitForkTransaction : Gov Binary64 InMemoryStorage Unit) rewardVm =
      .ok () (rewardVm.ended (roofStorage .voting)) := by
    refine ofVm_eq_ok_iff.mpr ((VM.endTransaction_eq_ok_iff rfl _ _).mpr ⟨rfl, _, ?_, rfl⟩)
    rfl
  obtain ⟨vm₁, hlog⟩ := logNode_of_nonneg (le_refl 0) (fun ledger =>
    ((ledger.findProposalNodeId "p1").toList,
      .voteCast "p1" "bob" (voteNumeric (toLowercase "yes"))))
    (rewardVm.ended (roofStorage .voting))
  refine ⟨vm₁, ?_, logNode_eq_ok hlog⟩
  unfold castVote
  refine (Comp.bind_of_ok hprepare).trans
    ((Comp.bind_of_ok (save_of_set rfl hset "Failed to store vote" _)).trans ?_)
  rw [VM.rejoined_inMemory, VM.rejoined_inMemory]
  exact (Comp.bind_of_ok hcommit).trans hlog

/-- The reward for bob's vote goes to an identity with quotes. -/
theorem goesThrough_bob : GoesThrough String 0 0 0 (.new "bob") "p1" "yes" none rewardVm := by
  obtain ⟨vm₁, hcast, hexecutor⟩ := castVote_bob
  have hroom : (roofStorage .voting).Writable (some admin) "default"
      (EconomicOperations.reputationKey "\"bob\"") (toString (0 + 1)).toUTF8 :=
    writable_roofStorage rfl _ (by decide)
  obtain ⟨storage, hset⟩ := set_ok_iff.mpr hroom
  have hkey : (roofStorage .voting).data.get
      ("default", EconomicOperations.reputationKey "\"bob\"") = none := by
    decide
  have hread : EconomicOperations.readNumber (roofStorage .voting) (some admin) "default"
      (EconomicOperations.reputationKey "\"bob\"") = .ok 0 := by
    have hcontains : StorageBackend.contains (roofStorage .voting) (some admin) "default"
        (EconomicOperations.reputationKey "\"bob\"") = .ok false := by
      show Except.ok ((roofStorage .voting).data.get
        ("default", EconomicOperations.reputationKey "\"bob\"")).isSome = _
      rw [hkey]
      rfl
    unfold EconomicOperations.readNumber
    rw [hcontains]
    rfl
  refine ⟨"yes", vm₁, "\"bob\"", none, some "\"Voted", roofStorage .voting, storage, admitVote_bob,
    hcast, rfl, ?_, 1, 0, rfl, ?_, by decide, ?_⟩
  · rw [hexecutor]
    rfl
  · rw [hexecutor]
    exact hread
  · unfold VMExecution.setSum
    rw [hexecutor]
    exact hset

theorem oneLine_bob : OneLine (AuthContext.new "bob").currentIdentityDid "p1" := by
  constructor <;> decide

/-- A vote for "maybe" is refused, and one for "yes" goes through without the reward. -/
theorem rewardsVoter_iff_bob :
    RewardsVoter String 0 0 0 (.new "bob") "p1" "maybe" none rewardVm ∧
      ¬ RewardsVoter String 0 0 0 (.new "bob") "p1" "yes" none rewardVm := by
  constructor
  · refine (rewardsVoter_iff oneLine_bob).mpr fun hthrough => ?_
    obtain ⟨vote, -, -, -, -, -, -, hadmit, -⟩ := hthrough
    obtain ⟨-, -, -, hchoice⟩ := admitVote_eq_ok_iff.mp hadmit
    have hmaybe : parseChoice "maybe" = none := by decide +kernel
    exact nomatch hmaybe.symm.trans hchoice
  · exact fun hrewards => (rewardsVoter_iff oneLine_bob).mp hrewards goesThrough_bob

/-- Bob is not rewarded for his vote. -/
theorem not_rewardsVoter_bob :
    ¬ RewardsVoter String 0 0 0 (.new "bob") "p1" "yes" none rewardVm :=
  not_rewardsVoter oneLine_bob goesThrough_bob

end bob

end Governance

end Covm
