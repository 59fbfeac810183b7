import IngestPipeline.CommandLine
import IngestPipeline.Proofs.Files
import IngestPipeline.Proofs.LogRequests
import Mathlib

/-! # What a run of the program leaves behind

A run ends with an exit code, has printed something, and leaves the files as they were or with one
of them written. This file shows that it does all that was asked for or nothing, and that what is
logged has no part in it. This holds over every file system and for every reader of log requests.

* **`Rendered read request text`**: the text that a request asks for, by way of the configuration,
  the pipeline document and its decoder.
* **`Delivered fs before output text result`**: the text is where it was asked for, and nothing else
  happened.
* **`Arguments.parseFrom_debugging`**: the flag `debug` in front of other arguments changes the flag
  in what they ask for, and nothing else.
* **`run_allOrNothing`**: both together, for all arguments, files and log requests. -/

namespace IngestPipeline.CommandLine

variable {σ ι : Type}

/-! ### The text that is asked for -/

/-- The settings that a request asks for, given what is read at each path. -/
def settingsFrom (read : String → Except FileError ByteArray) (request : Request) :
    Except SettingsError Settings :=
  match request.config with
  | none => .ok {}
  | some path => Settings.ofRead path (read path)

/-- Everything up to writing, given what is read at each path. -/
def prepareFrom (read : String → Except FileError ByteArray) (request : Request) :
    List Event × Except Failure String :=
  match settingsFrom read request with
  | .error e => ([], .error (.settings e))
  | .ok s =>
      let (events, prepared) :=
        translate s request (Document.ofRead request.input (read request.input))
      (.reading request.input :: events, prepared)

/-- Choosing the settings only reads. -/
@[simp] theorem run_settings (fs : FileSystem σ ι) (request : Request) (s : σ) :
    (settings fs.access request).run s =
      ((settingsFrom (fs.read s) request).mapError .settings, s) := by
  unfold settings settingsFrom
  cases request.config <;> rfl

/-- **Preparing only reads**: it leaves the state as it is, and gives what is read there. -/
@[simp] theorem run_prepare (fs : FileSystem σ ι) (request : Request) (s : σ) :
    (prepare fs.access request).run s = (prepareFrom (fs.read s) request, s) := by
  rw [prepare, StateT.run_bind, run_settings, prepareFrom]
  cases settingsFrom (fs.read s) request <;> rfl

/-- **The text that a request asks for**: the decoder of the pipeline document under the settings of
the configuration, in the format of the request. -/
def Rendered (read : String → Except FileError ByteArray) (request : Request) (text : String) :
    Prop :=
  ∃ s document decoder, settingsFrom read request = .ok s ∧
    Document.ofRead request.input (read request.input) = .ok document ∧
    (Pipeline.decode s document).2 = .ok decoder ∧ text = decoder.render request.format

/-- There is a text to write if every step before it succeeds. -/
theorem prepareFrom_eq_ok_iff {read : String → Except FileError ByteArray} {request : Request}
    {text : String} : (prepareFrom read request).2 = .ok text ↔ Rendered read request text := by
  unfold prepareFrom Rendered translate
  cases settingsFrom read request with
  | error f => simp
  | ok s =>
      dsimp only
      cases Document.ofRead request.input (read request.input) with
      | error e => simp
      | ok document =>
          dsimp only
          cases hp : Pipeline.decode s document with
          | mk events result =>
              cases result with
              | error e => simp [hp]
              | ok decoder => simp [hp, eq_comm]

/-! ### One request -/

/-- What a run leaves besides its log. -/
structure Result (σ : Type) where
  /-- The exit code. -/
  code : Nat
  /-- What is printed. -/
  stdout : String
  /-- The files. -/
  files : σ

/-- What is left by a run that ends with an outcome in a state. -/
def Result.of (r : Outcome × σ) : Result σ := ⟨r.1.code, r.1.stdout, r.2⟩

/-- Whether a text can be put where it is asked for. What is printed always can. -/
def Writable (fs : FileSystem σ ι) (before : σ) (output : Option String) (text : String) : Prop :=
  ∀ path, output = some path → ∃ after, fs.write before path text.toUTF8 = .ok after

/-- **The text is where it was asked for**: printed, with all files unchanged, or held by the file
that the output leads to, with nothing printed and all other files unchanged. -/
def Delivered (fs : FileSystem σ ι) (before : σ) (output : Option String) (text : String)
    (r : Result σ) : Prop :=
  match output with
  | none => r.stdout = text ∧ r.files = before
  | some path => r.stdout = "" ∧ fs.read r.files path = .ok text.toUTF8 ∧
      ∃ i, fs.file? before path = some i ∧ fs.bytes? r.files i = some text.toUTF8 ∧
        ∀ j, j ≠ i → fs.bytes? r.files j = fs.bytes? before j

/-- **Delivering**: a failure leaves the files as they are, and a text is printed or written. -/
theorem run_deliver (fs : FileSystem σ ι) (before : σ) (request : Request) (log : String)
    (prepared : Except Failure String) :
    Result.of ((deliver fs.access request log prepared).run before) =
      match prepared with
      | .error _ => ⟨1, "", before⟩
      | .ok text =>
          match request.output with
          | none => ⟨0, text, before⟩
          | some path =>
              match fs.write before path text.toUTF8 with
              | .ok after => ⟨0, "", after⟩
              | .error _ => ⟨1, "", before⟩ := by
  cases prepared with
  | error f => rfl
  | ok text =>
      unfold deliver
      cases request.output with
      | none => rfl
      | some path =>
          dsimp only
          rw [StateT.run_bind, FileSystem.access_write]
          cases fs.write before path text.toUTF8 <;> rfl

/-- What is left once a request was carried out. -/
def executed (fs : FileSystem σ ι) (before : σ) (shown : Event → Bool) (request : Request) :
    Result σ :=
  .of ((execute fs.access shown request).run before)

/-- **What carrying out a request leaves**: what it prepares from the files, delivered. Which events
are shown does not matter. -/
theorem executed_eq (fs : FileSystem σ ι) (before : σ) (shown : Event → Bool) (request : Request) :
    executed fs before shown request =
      match (prepareFrom (fs.read before) request).2 with
      | .error _ => ⟨1, "", before⟩
      | .ok text =>
          match request.output with
          | none => ⟨0, text, before⟩
          | some path =>
              match fs.write before path text.toUTF8 with
              | .ok after => ⟨0, "", after⟩
              | .error _ => ⟨1, "", before⟩ := by
  rw [executed, execute, StateT.run_bind, run_prepare]
  exact run_deliver fs before request _ _

/-- **A request is carried out as a whole**: the text is there, can be put in its place and is
delivered. -/
theorem executed_of_rendered {fs : FileSystem σ ι} {before : σ} {request : Request} {text : String}
    (shown : Event → Bool) (htext : Rendered (fs.read before) request text)
    (hwritable : Writable fs before request.output text) :
    (executed fs before shown request).code = 0 ∧
      Delivered fs before request.output text (executed fs before shown request) := by
  rw [executed_eq, prepareFrom_eq_ok_iff.2 htext]
  dsimp only
  cases hout : request.output with
  | none => exact ⟨rfl, rfl, rfl⟩
  | some path =>
      obtain ⟨after, hwrite⟩ := hwritable path hout
      obtain ⟨i, hfile, -, hbytes, hothers⟩ := fs.file?_of_write hwrite
      dsimp only
      rw [hwrite]
      exact ⟨rfl, rfl, fs.read_of_write hwrite, i, hfile, hbytes, hothers⟩

/-- **A request is not carried out at all**: the text is not there or cannot be put in its place. -/
theorem executed_of_not_rendered {fs : FileSystem σ ι} {before : σ} {request : Request}
    (shown : Event → Bool)
    (h : ¬ ∃ text, Rendered (fs.read before) request text ∧
      Writable fs before request.output text) :
    executed fs before shown request = ⟨1, "", before⟩ := by
  rw [executed_eq]
  cases hprepare : (prepareFrom (fs.read before) request).2 with
  | error f => rfl
  | ok text =>
      have htext := prepareFrom_eq_ok_iff.1 hprepare
      have hwritable : ¬ Writable fs before request.output text := fun hw => h ⟨text, htext, hw⟩
      cases hout : request.output with
      | none =>
          -- what is printed can always be put in its place
          refine absurd ?_ hwritable
          intro path hpath
          rw [hout] at hpath
          cases hpath
      | some path =>
          dsimp only
          cases hwrite : fs.write before path text.toUTF8 with
          | error cause => rfl
          | ok after =>
              refine absurd ?_ hwritable
              intro path' hpath
              rw [hout] at hpath
              cases hpath
              exact ⟨after, hwrite⟩

/-- What a request leaves does not depend on what is logged. -/
theorem executed_congr (fs : FileSystem σ ι) (before : σ) (shown shown' : Event → Bool)
    (request : Request) (debug : Bool) :
    executed fs before shown { request with debug := debug } =
      executed fs before shown' request := by
  rw [executed_eq, executed_eq]
  rfl

/-! ### The flag `debug` -/

/-- A request with the flag `debug`. -/
def Request.debugging (request : Request) : Request := { request with debug := true }

/-- What arguments ask for, with the flag `debug`. -/
def Command.debugging : Command → Command
  | .run request => .run request.debugging
  | command => command

namespace Arguments

/-- Arguments with the flag `debug`. -/
def debugging (a : Arguments) : Arguments := { a with debug := true }

/-- The flag does not matter to an option with a value. -/
@[simp] theorem set?_debugging (a : Arguments) (option : ValueOption) (value : String) :
    a.debugging.set? option value = (a.set? option value).map debugging := by
  unfold set?
  by_cases hvalue : value.isEmpty = true
  · rw [if_pos hvalue, if_pos hvalue]
    rfl
  rw [if_neg hvalue, if_neg hvalue]
  cases option with
  | output => cases ho : a.output <;> simp [debugging, ho]
  | config => cases hc : a.config <;> simp [debugging, hc]
  | format =>
      cases hf : a.format with
      | some format => simp [debugging, hf]
      | none => cases exactFormat? value <;> simp [debugging, hf]

/-- The flag does not matter to the input. -/
@[simp] theorem setInput?_debugging (a : Arguments) (value : String) :
    a.debugging.setInput? value = (a.setInput? value).map debugging := by
  unfold setInput?
  by_cases h : (value.isEmpty || a.input.isSome) = true
  · rw [if_pos h, if_pos (show (value.isEmpty || a.debugging.input.isSome) = true from h)]
    rfl
  · rw [if_neg h, if_neg (show ¬ (value.isEmpty || a.debugging.input.isSome) = true from h)]
    rfl

/-- The flag does not matter to what can only be inputs. -/
@[simp] theorem foldlM_setInput?_debugging (a : Arguments) (values : List String) :
    values.foldlM setInput? a.debugging = (values.foldlM setInput? a).map debugging := by
  induction values generalizing a with
  | nil => rfl
  | cons value values ih =>
      rw [List.foldlM_cons, List.foldlM_cons, setInput?_debugging]
      cases a.setInput? value with
      | none => rfl
      | some a' => exact ih a'

/-- The flag is kept in the request. -/
@[simp] theorem request?_debugging (a : Arguments) :
    a.debugging.request?.map Command.run = (a.request?.map Command.run).map Command.debugging := by
  unfold request?
  cases hi : a.input <;> simp [debugging, hi, Command.debugging, Request.debugging]

/-- Only one argument is the flag `debug`. -/
theorem eq_of_shape_eq_debug {argument : String} (h : shape argument = .debug) :
    argument = "--debug" := by
  have hlong : ∀ s, longShape s = .debug → s = "debug".toList := by
    intro s hs
    unfold longShape at hs
    dsimp only at hs
    split at hs
    · cases hs
    · cases hs
    · rename_i hvalue
      split at hs
      · rename_i hname
        -- all characters stand in front of an equals sign, since none stands behind one
        have hall := List.takeWhile_append_dropWhile (p := (· != '=')) (l := s)
        rw [hvalue, List.append_nil] at hall
        rw [hall] at hname
        rw [← hname, String.toList_ofList]
      · split at hs
        · cases hs
        · split at hs <;> cases hs
    · cases hs
  have hshort : ∀ letter value, shortShape letter value ≠ .debug := by
    intro letter value hs
    unfold shortShape at hs
    split at hs
    · cases hs
    · split at hs
      · cases hs
      · split at hs <;> cases hs
  unfold shape at h
  split at h
  · cases h
  · rename_i s _ hargument
    rw [← String.ofList_toList (s := argument), hargument, hlong s h]
    rfl
  · rename_i letter value _ _ _
    exact absurd h (hshort letter value)
  · cases h

/-- **The flag `debug` and the other arguments do not touch each other.** -/
theorem parseFrom_debugging {a : Arguments} {arguments : List String}
    (h : "--debug" ∉ arguments) :
    parseFrom a.debugging arguments = (parseFrom a arguments).map Command.debugging := by
  induction a, arguments using parseFrom.induct with
  | case1 a =>
      rw [parseFrom, parseFrom]
      exact a.request?_debugging
  | case2 a argument rest hshape =>
      rw [parseFrom, parseFrom, hshape]
      dsimp only
      rw [foldlM_setInput?_debugging]
      cases rest.foldlM setInput? a with
      | none => rfl
      | some a' => exact a'.request?_debugging
  | case3 a argument rest hshape =>
      rw [parseFrom, parseFrom, hshape]
      rfl
  | case4 a argument rest hshape =>
      rw [parseFrom, parseFrom, hshape]
      rfl
  -- an argument with the shape of the flag is the flag, and there is none
  | case5 a argument rest hshape =>
      exact absurd (by rw [eq_of_shape_eq_debug hshape]; exact List.mem_cons_self) h
  | case6 a argument rest hshape =>
      exact absurd (by rw [eq_of_shape_eq_debug hshape]; exact List.mem_cons_self) h
  -- an option or an input may be refused; if not, the flag is still there for the rest
  | case7 a argument rest option value hshape ih =>
      rw [parseFrom, parseFrom, hshape]
      dsimp only
      rw [set?_debugging]
      cases a.set? option value with
      | none => rfl
      | some a' => exact ih a' fun hmem => h (List.mem_cons_of_mem _ hmem)
  | case8 a argument option hshape value rest hvalue ih =>
      simp only [parseFrom, hshape, hvalue, if_true, set?_debugging]
      cases a.set? option value with
      | none => rfl
      | some a' =>
          exact ih a' fun hmem => h (List.mem_cons_of_mem _ (List.mem_cons_of_mem _ hmem))
  | case9 a argument option hshape value rest hvalue =>
      simp only [parseFrom, hshape, if_neg hvalue, Option.map_none]
  | case10 a argument option hshape =>
      simp only [parseFrom, hshape, Option.map_none]
  | case11 a argument rest hshape ih =>
      rw [parseFrom, parseFrom, hshape]
      dsimp only
      rw [setInput?_debugging]
      cases a.setInput? argument with
      | none => rfl
      | some a' => exact ih a' fun hmem => h (List.mem_cons_of_mem _ hmem)
  | case12 a argument rest hshape =>
      rw [parseFrom, parseFrom, hshape]
      rfl

/-- The flag `debug` in front of other arguments changes the flag in what they ask for. -/
theorem parse_cons_debug {arguments : List String} (h : "--debug" ∉ arguments) :
    parse ("--debug" :: arguments) = (parse arguments).map Command.debugging := by
  have hshape : shape "--debug" = .debug := by cbv
  rw [parse, parseFrom, hshape]
  exact parseFrom_debugging h

end Arguments

/-! ### Whole runs -/

/-- What a run leaves. -/
def result (fs : FileSystem σ ι) (logs : LogReader) (arguments : List String) (before : σ)
    (log : Option String) : Result σ :=
  .of ((run fs.access logs arguments log).run before)

/-- Arguments with or without the flag `debug` in front of them. -/
def flagged (debug : Bool) (arguments : List String) : List String :=
  if debug then "--debug" :: arguments else arguments

section Run

variable (fs : FileSystem σ ι) (logs : LogReader) {arguments : List String} (before : σ)
  {log : Option String}

/-- A run whose log request is answered carries out what it is asked for. -/
theorem result_of_answers {request : Request}
    (hparse : Arguments.parse arguments = some (.run request)) (hlog : logs.Answers log) :
    ∃ shown, result fs logs arguments before log = executed fs before shown request := by
  cases hshown : logs.shown? log request.debug with
  | none => exact absurd hlog (LogReader.shown?_eq_none_iff.1 hshown)
  | some shown =>
      refine ⟨shown, ?_⟩
      rw [result, run, hparse]
      dsimp only
      rw [hshown]
      rfl

/-- A run whose log request is not answered ends before it begins. -/
theorem result_of_not_answers {request : Request}
    (hparse : Arguments.parse arguments = some (.run request)) (hlog : ¬ logs.Answers log) :
    result fs logs arguments before log = ⟨abortedCode, "", before⟩ := by
  rw [result, run, hparse]
  dsimp only
  rw [LogReader.shown?_eq_none_iff.2 hlog]
  rfl

/-- A run that is asked for no decoder document leaves the files as they were, and does not fail. -/
theorem result_of_no_request (log : Option String)
    (h : ¬ ∃ request, Arguments.parse arguments = some (.run request)) :
    (result fs logs arguments before log).files = before ∧
      (result fs logs arguments before log).code ≠ 1 := by
  unfold result run
  cases hparse : Arguments.parse arguments with
  | none => exact ⟨rfl, Nat.succ_succ_ne_one 0⟩
  | some command =>
      cases command with
      | help => exact ⟨rfl, Nat.zero_ne_one⟩
      | version => exact ⟨rfl, Nat.zero_ne_one⟩
      | run request => exact absurd ⟨request, hparse⟩ h

/-- What arguments ask for, with or without the flag `debug` in front of them. -/
theorem parse_flagged (h : "--debug" ∉ arguments) (debug : Bool) :
    Arguments.parse (flagged debug arguments) =
      (Arguments.parse arguments).map fun command =>
        if debug then command.debugging else command := by
  cases debug with
  | false => simp [flagged]
  | true => exact Arguments.parse_cons_debug h

/-- **What is logged has no part in what a run leaves**: neither the flag `debug` nor the log
request, as long as it is answered as before. -/
theorem result_flagged (h : "--debug" ∉ arguments) (debug : Bool) {log' : Option String}
    (hlog : logs.Answers log' ↔ logs.Answers log) :
    result fs logs (flagged debug arguments) before log' =
      result fs logs arguments before log := by
  have hflagged := parse_flagged h debug
  by_cases hrequest : ∃ request, Arguments.parse arguments = some (.run request)
  · obtain ⟨request, hparse⟩ := hrequest
    have hparse' : Arguments.parse (flagged debug arguments) =
        some (.run { request with debug := debug || request.debug }) := by
      rw [hflagged, hparse]
      cases debug <;> rfl
    -- both runs are carried out, or both are aborted
    by_cases hanswers : logs.Answers log
    · obtain ⟨shown, hrun⟩ := result_of_answers fs logs before hparse hanswers
      obtain ⟨shown', hrun'⟩ := result_of_answers fs logs before hparse' (hlog.2 hanswers)
      rw [hrun, hrun']
      exact executed_congr fs before shown' shown request _
    · rw [result_of_not_answers fs logs before hparse hanswers,
        result_of_not_answers fs logs before hparse' (hlog.not.2 hanswers)]
  · unfold result run
    rw [hflagged]
    cases hparse : Arguments.parse arguments with
    | none => rfl
    | some command =>
        cases command with
        | help => cases debug <;> rfl
        | version => cases debug <;> rfl
        | run request => exact absurd ⟨request, hparse⟩ hrequest

end Run

/-- **What a run leaves behind**, given its arguments, its log request and the files in front of
it. -/
structure AllOrNothing (fs : FileSystem σ ι) (logs : LogReader) (arguments : List String)
    (before : σ) (log : Option String) (r : Result σ) : Prop where
  /-- A run that does not succeed leaves the files as they were. -/
  files : r.code ≠ 0 → r.files = before
  /-- A run that fails prints nothing. -/
  stdout : r.code = 1 → r.stdout = ""
  /-- A run that is asked for a decoder document succeeds if its log request is answered, there is
  such a document and it can be written. -/
  code : ∀ request, Arguments.parse arguments = some (.run request) →
    (r.code = 0 ↔ logs.Answers log ∧
      ∃ text, Rendered (fs.read before) request text ∧ Writable fs before request.output text)
  /-- A run that is asked for a decoder document and succeeds has delivered its text. -/
  delivered : ∀ request, Arguments.parse arguments = some (.run request) → r.code = 0 →
    ∃ text, Rendered (fs.read before) request text ∧ Delivered fs before request.output text r
  /-- A run that is asked for a decoder document and whose log request is not answered is aborted,
  with nothing printed. -/
  aborted : ∀ request, Arguments.parse arguments = some (.run request) → ¬ logs.Answers log →
    r.code = abortedCode ∧ r.stdout = ""
  /-- The flag `debug` in front, and another log request that is answered as this one is, leave the
  same behind. -/
  unlogged : "--debug" ∉ arguments → ∀ debug log', (logs.Answers log' ↔ logs.Answers log) →
    result fs logs (flagged debug arguments) before log' = r

/-- **All or nothing**: over every file system, a run delivers the document that is asked for, or
leaves all files as they were; and what is logged has no part in what it leaves. -/
theorem run_allOrNothing (fs : FileSystem σ ι) (logs : LogReader) (arguments : List String)
    (before : σ) (log : Option String) :
    AllOrNothing fs logs arguments before log (result fs logs arguments before log) := by
  have hunlogged : "--debug" ∉ arguments → ∀ debug log', (logs.Answers log' ↔ logs.Answers log) →
      result fs logs (flagged debug arguments) before log' = result fs logs arguments before log :=
    fun h debug log' hlog => result_flagged fs logs before h debug hlog
  by_cases hrequest : ∃ request, Arguments.parse arguments = some (.run request)
  · obtain ⟨request, hparse⟩ := hrequest
    have hunique : ∀ request', Arguments.parse arguments = some (.run request') →
        request' = request := by
      intro request' hparse'
      rw [hparse] at hparse'
      cases hparse'
      rfl
    -- three ways to end: the text is delivered, there is none to deliver, or the run is aborted
    by_cases hanswers : logs.Answers log
    · obtain ⟨shown, hrun⟩ := result_of_answers fs logs before hparse hanswers
      rw [hrun] at hunlogged ⊢
      by_cases hdone : ∃ text, Rendered (fs.read before) request text ∧
          Writable fs before request.output text
      · obtain ⟨text, htext, hwritable⟩ := hdone
        obtain ⟨hcode, hdelivered⟩ := executed_of_rendered shown htext hwritable
        refine
          { files := fun h => absurd hcode h
            stdout := fun h => by omega
            code := ?_
            delivered := ?_
            aborted := fun _ _ h => absurd hanswers h
            unlogged := hunlogged }
        · intro request' hparse'
          rw [hunique request' hparse']
          exact ⟨fun _ => ⟨hanswers, text, htext, hwritable⟩, fun _ => hcode⟩
        · intro request' hparse' _
          rw [hunique request' hparse']
          exact ⟨text, htext, hdelivered⟩
      · rw [executed_of_not_rendered shown hdone] at hunlogged ⊢
        refine
          { files := fun _ => rfl
            stdout := fun _ => rfl
            code := ?_
            delivered := fun _ _ h => absurd h Nat.one_ne_zero
            aborted := fun _ _ h => absurd hanswers h
            unlogged := hunlogged }
        intro request' hparse'
        rw [hunique request' hparse']
        exact ⟨fun h => absurd h Nat.one_ne_zero, fun h => absurd h.2 hdone⟩
    · rw [result_of_not_answers fs logs before hparse hanswers] at hunlogged ⊢
      have habort : abortedCode ≠ 0 := by decide
      exact
        { files := fun _ => rfl
          stdout := fun _ => rfl
          code := fun _ _ => ⟨fun h => absurd h habort, fun h => absurd h.1 hanswers⟩
          delivered := fun _ _ h => absurd h habort
          aborted := fun _ _ _ => ⟨rfl, rfl⟩
          unlogged := hunlogged }
  -- help, the version, or arguments that are not understood: no file is touched
  · obtain ⟨hfiles, hcode⟩ := result_of_no_request fs logs before log hrequest
    have hnone : ∀ request, Arguments.parse arguments ≠ some (.run request) :=
      fun request hparse => hrequest ⟨request, hparse⟩
    exact
      { files := fun _ => hfiles
        stdout := fun h => absurd h hcode
        code := fun _ h => absurd h (hnone _)
        delivered := fun _ h => absurd h (hnone _)
        aborted := fun _ h => absurd h (hnone _)
        unlogged := hunlogged }

/-- A tree with a pipeline without processors, and a directory in the one that runs start from. -/
def sampleTree : FileTree :=
  .directory [("p", .file "\x7b'processors':[]\x7d".toUTF8),
    ("h", .directory [("d", .directory [])])]

/-- The arguments of a run from an absolute path to a relative one. -/
def sampleArguments : List String := ["/p", "-Fjson", "-od/q"]

/-- What these arguments ask for. -/
def sampleRequest : Request := ⟨"/p", some "d/q", .json, none, false⟩

/-- A run in that tree succeeds, delivers its document, and leaves the same if it logs more. -/
theorem run_allOrNothing_sampleTree :
    Arguments.parse sampleArguments = some (.run sampleRequest) ∧
      (result (FileTree.system ["h"]) LogFilter.reader sampleArguments sampleTree none).code = 0 ∧
      (∃ text, Rendered (FileTree.read ["h"] sampleTree) sampleRequest text ∧
        Delivered (FileTree.system ["h"]) sampleTree (some "d/q") text
          (result (FileTree.system ["h"]) LogFilter.reader sampleArguments sampleTree none)) ∧
      result (FileTree.system ["h"]) LogFilter.reader (flagged true sampleArguments) sampleTree
          (some "info") =
        result (FileTree.system ["h"]) LogFilter.reader sampleArguments sampleTree none := by
  have hparse : Arguments.parse sampleArguments = some (.run sampleRequest) := by cbv
  have hcode : (result (FileTree.system ["h"]) LogFilter.reader sampleArguments sampleTree
      none).code = 0 := by cbv
  have hlog : LogFilter.reader.Answers (some "info") :=
    LogFilter.reader_answers (by simp [Text.SingleOctets, Char.utf8Size])
  have hall := run_allOrNothing (FileTree.system ["h"]) LogFilter.reader sampleArguments
    sampleTree none
  refine ⟨hparse, hcode, hall.delivered _ hparse hcode, hall.unlogged (by decide) true _ ?_⟩
  exact ⟨fun _ => LogReader.answers_none _, fun _ => hlog⟩

end IngestPipeline.CommandLine
