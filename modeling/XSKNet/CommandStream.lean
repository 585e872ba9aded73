import XSKNet.PortOwnership

/- The commands of one connection as a stream of bytes. TCP may cut the stream anywhere, and
   handle_client takes every read for one command. -/
namespace XSKStream
open CStrings XSKInterfaces XSKPorts XSKCommandSocket XSKOwnership

inductive Request where
  | requestPort (vethName : CString)
  | removePort (vethName : CString)
  | requestPhyIfname (vethName : CString)
  deriving DecidableEq

abbrev Invocation := CString × CString

def Request.call : Request → Invocation
  | .requestPort vethName => (createPortCommand, vethName)
  | .removePort vethName => (deletePortCommand, vethName)
  | .requestPhyIfname vethName => (getPhyIfCommand, vethName)

def Request.bytes (q : Request) : List UInt8 := (requestCmd q.call.1 q.call.2).bytes

def known (c : Invocation) : Bool :=
  c.1 = createPortCommand || c.1 = deletePortCommand || c.1 = getPhyIfCommand

/-- The known commands that a sequence of reads parses to; none when a read without a word sends
    the null pointer to strcmp. -/
def executed (reads : List (List UInt8)) : Option (List Invocation) :=
  (reads.mapM parseRead).map fun calls => calls.filter known

/-- The daemon, with the handlers called so far and what they were given. -/
structure Traced where
  daemon : Daemon
  calls : List Invocation

/-- handle_command; a handler that is called is noted. -/
def runCommand (o : Outcomes) (command data : CString) (t : Traced) : Except Traced Traced :=
  match commands.find? fun c => decide (c.1 = command) with
  | some (name, handler) =>
    match handler o data t.daemon with
    | .error d => .error ⟨d, t.calls ++ [(name, data)]⟩
    | .ok d => .ok ⟨d, t.calls ++ [(name, data)]⟩
  | none => .ok t

/-- One turn of the read loop. error is the process ending, or a read that fills the buffer:
    its terminator is written behind the array, and nothing is known from there on. -/
def runRead (o : Outcomes) (bytes : List UInt8) (t : Traced) : Except Traced Traced :=
  if CMD_SIZE ≤ bytes.length then .error t
  else
    match parseRead bytes with
    | none => .error t
    | some (command, data) =>
      if command = getPhyIfCommand then
        -- the reply, opts.dev, is the whole of this command
        let t := { t with calls := t.calls ++ [(command, data)] }
        if o .writeReply then .ok t else .error t
      else
        match runCommand o command data t with
        | .error t => .error t
        | .ok t => if o .writeReply then .ok t else .error t

def handleClient : List (Outcomes × List UInt8) → Traced → Except Traced Traced
  | [], t => .ok t
  | (o, bytes) :: rest, t =>
    match runRead o bytes t with
    | .error t => .error t
    | .ok t => handleClient rest t

def left (r : Except Traced Traced) : Traced :=
  match r with
  | .error t => t
  | .ok t => t

def Invocation.perform (o : Outcomes) (c : Invocation) (d : Daemon) : Except Daemon Daemon :=
  if c.1 = createPortCommand then createPort o c.2 d
  else if c.1 = deletePortCommand then .ok (deletePort o c.2 d)
  else .ok d

def performAll : List (Outcomes × Invocation) → Daemon → Except Daemon Daemon
  | [], d => .ok d
  | (o, c) :: rest, d =>
    match Invocation.perform o c d with
    | .error d => .error d
    | .ok d => performAll rest d

/-- Nothing ends the process: the XDP objects load and the reply is written. -/
def Unhindered (o : Outcomes) : Prop :=
  o (.load .outer) = true ∧ o (.load .inner) = true ∧ o .writeReply = true

/-- Whatever fails without ending the process, the loop gets through the reads, has called the
    handlers of the requests with their arguments, each once and in order, and leaves what
    these commands make of the daemon. -/
def CarriedOut (requests : List Request) (reads : List (List UInt8)) : Prop :=
  ∀ turns d, turns.map Prod.snd = reads → (∀ turn ∈ turns, Unhindered turn.1) →
    ∃ d', handleClient turns ⟨d, []⟩ = .ok ⟨d', requests.map Request.call⟩ ∧
      performAll ((turns.map Prod.fst).zip (requests.map Request.call)) d = .ok d'

/-- The stream of the requests, cut into what successive reads of the buffer's CMD_SIZE bytes can
    return; a read that fills the buffer is one of them. -/
def Delivered (requests : List Request) (reads : List (List UInt8)) : Prop :=
  (∀ r ∈ reads, r ≠ [] ∧ r.length ≤ CMD_SIZE) ∧
    reads.flatten = (requests.map Request.bytes).flatten

/-- One word or none, and not cut off by snprintf. -/
def Clean (c : Invocation) : Prop :=
  (32 : UInt8) ∉ c.2.bytes ∧ c.1.bytes.length + 1 + c.2.bytes.length ≤ CMD_SIZE - 1

/-- Every argument goes through whole, no read fills the buffer, and the reads are the requests
    one for one: each has the words of its request and, apart from blanks, nothing else. -/
def Framed (requests : List Request) (reads : List (List UInt8)) : Prop :=
  (∀ q ∈ requests, Clean q.call) ∧ (∀ r ∈ reads, r.length ≤ CMD_SIZE - 1) ∧
    reads.map (fields 32) = requests.map fun q => fields 32 q.bytes

instance decidableDelivered (requests : List Request) (reads : List (List UInt8)) :
    Decidable (Delivered requests reads) := inferInstanceAs (Decidable (_ ∧ _))

instance decidableClean (c : Invocation) : Decidable (Clean c) :=
  inferInstanceAs (Decidable (_ ∧ _))

instance decidableFramed (requests : List Request) (reads : List (List UInt8)) :
    Decidable (Framed requests reads) := inferInstanceAs (Decidable (_ ∧ _))

/- The loop runs what its reads parse to. -/

theorem short_iff (bytes : List UInt8) :
    bytes.length ≤ CMD_SIZE - 1 ↔ ¬ CMD_SIZE ≤ bytes.length := by
  unfold CMD_SIZE
  omega

theorem runCommand_eq (o : Outcomes) (c : Invocation) (t : Traced)
    (other : c.1 ≠ getPhyIfCommand) :
    runCommand o c.1 c.2 t =
      match Invocation.perform o c t.daemon with
      | .error d => .error ⟨d, t.calls ++ [c].filter known⟩
      | .ok d => .ok ⟨d, t.calls ++ [c].filter known⟩ := by
  obtain ⟨command, data⟩ := c
  have differ : createPortCommand ≠ deletePortCommand := by decide
  by_cases create : command = createPortCommand
  · subst create
    simp [runCommand, commands, Invocation.perform, known]
  · by_cases delete : command = deletePortCommand
    · subst delete
      simp [runCommand, commands, Invocation.perform, known, differ, Ne.symm differ]
    · simp [runCommand, commands, Invocation.perform, known, create, delete,
        Ne.symm create, Ne.symm delete, show command ≠ getPhyIfCommand from other]

theorem runRead_eq (o : Outcomes) {bytes : List UInt8} {c : Invocation} (t : Traced)
    (fits : bytes.length ≤ CMD_SIZE - 1) (parsed : parseRead bytes = some c) :
    runRead o bytes t =
      match Invocation.perform o c t.daemon with
      | .error d => .error ⟨d, t.calls ++ [c].filter known⟩
      | .ok d => if o .writeReply then .ok ⟨d, t.calls ++ [c].filter known⟩
        else .error ⟨d, t.calls ++ [c].filter known⟩ := by
  unfold runRead
  rw [if_neg ((short_iff bytes).mp fits), parsed]
  by_cases phy : c.1 = getPhyIfCommand
  · have no_create : getPhyIfCommand ≠ createPortCommand := by decide
    have no_delete : getPhyIfCommand ≠ deletePortCommand := by decide
    obtain ⟨command, data⟩ := c
    obtain rfl : command = getPhyIfCommand := phy
    simp [Invocation.perform, known, no_create, no_delete]
  · dsimp only
    rw [if_neg phy, runCommand_eq o c t phy]
    cases Invocation.perform o c t.daemon with
    | error d => rfl
    | ok d => rfl

theorem runRead_ok {o : Outcomes} {bytes : List UInt8} {t t' : Traced}
    (done : runRead o bytes t = .ok t') :
    bytes.length ≤ CMD_SIZE - 1 ∧ ∃ c, parseRead bytes = some c ∧
      t'.calls = t.calls ++ [c].filter known ∧
      Invocation.perform o c t.daemon = .ok t'.daemon := by
  have fits : bytes.length ≤ CMD_SIZE - 1 := by
    rw [short_iff]
    intro full
    rw [runRead, if_pos full] at done
    cases done
  refine ⟨fits, ?_⟩
  cases parsed : parseRead bytes with
  | none =>
    rw [runRead, if_neg ((short_iff bytes).mp fits), parsed] at done
    cases done
  | some c =>
    rw [runRead_eq o t fits parsed] at done
    refine ⟨c, rfl, ?_⟩
    cases performed : Invocation.perform o c t.daemon with
    | error d =>
      rw [performed] at done
      cases done
    | ok d =>
      rw [performed] at done
      dsimp only at done
      split at done
      · obtain rfl := Except.ok.inj done
        exact ⟨rfl, rfl⟩
      · cases done

theorem handleClient_ok {turns : List (Outcomes × List UInt8)} {t t' : Traced}
    (served : handleClient turns t = .ok t') :
    (∀ turn ∈ turns, turn.2.length ≤ CMD_SIZE - 1) ∧
      ∃ cs, (turns.map Prod.snd).mapM parseRead = some cs ∧
        t'.calls = t.calls ++ cs.filter known ∧
        performAll ((turns.map Prod.fst).zip cs) t.daemon = .ok t'.daemon := by
  induction turns generalizing t with
  | nil =>
    obtain rfl := Except.ok.inj served
    exact ⟨nofun, [], rfl, (List.append_nil _).symm, rfl⟩
  | cons turn rest ih =>
    obtain ⟨o, bytes⟩ := turn
    unfold handleClient at served
    cases here : runRead o bytes t with
    | error e =>
      rw [here] at served
      cases served
    | ok u =>
      rw [here] at served
      obtain ⟨fits, c, parsed, noted, performed⟩ := runRead_ok here
      obtain ⟨short, cs, all, calls, behind⟩ := ih served
      refine ⟨List.forall_mem_cons.mpr ⟨fits, short⟩, c :: cs, ?_, ?_, ?_⟩
      · simp [parsed, all]
      · rw [calls, noted, List.append_assoc, ← List.filter_append]
        rfl
      · rw [List.map_cons, List.zip_cons_cons, performAll, performed]
        exact behind

theorem perform_unhindered {o : Outcomes} (free : Unhindered o) (c : Invocation) (d : Daemon) :
    ∃ d', Invocation.perform o c d = .ok d' := by
  obtain ⟨outer, inner, -⟩ := free
  unfold Invocation.perform
  split
  · obtain ⟨d', done, -⟩ := create_runs outer inner c.2 d
    exact ⟨d', done⟩
  · split
    · exact ⟨_, rfl⟩
    · exact ⟨d, rfl⟩

theorem handleClient_unhindered {turns : List (Outcomes × List UInt8)}
    {cs : List Invocation} (free : ∀ turn ∈ turns, Unhindered turn.1)
    (short : ∀ turn ∈ turns, turn.2.length ≤ CMD_SIZE - 1)
    (parsed : (turns.map Prod.snd).mapM parseRead = some cs) (t : Traced) :
    ∃ t', handleClient turns t = .ok t' := by
  induction turns generalizing t cs with
  | nil => exact ⟨t, rfl⟩
  | cons turn rest ih =>
    obtain ⟨o, bytes⟩ := turn
    simp only [List.map_cons, List.mapM_cons, Option.bind_eq_bind,
      Option.bind_eq_some_iff] at parsed
    obtain ⟨c, here, more, later, -⟩ := parsed
    obtain ⟨free_here, free_later⟩ := List.forall_mem_cons.mp free
    obtain ⟨short_here, short_later⟩ := List.forall_mem_cons.mp short
    obtain ⟨d, performed⟩ := perform_unhindered free_here c t.daemon
    have turn_done := runRead_eq o t short_here here
    rw [performed] at turn_done
    dsimp only at turn_done
    rw [if_pos free_here.2.2] at turn_done
    obtain ⟨t', served⟩ := ih free_later short_later later ⟨d, t.calls ++ [c].filter known⟩
    refine ⟨t', ?_⟩
    rw [handleClient, turn_done]
    exact served

/- One read. -/

def Invocation.words (c : Invocation) : List (List UInt8) :=
  c.1.bytes :: if c.2.bytes = [] then [] else [c.2.bytes]

def Invocation.size (c : Invocation) : Nat := c.1.bytes.length + c.2.bytes.length

theorem ofArray_sub {w s : List UInt8} (inside : w ⊆ s) (noNul : (0 : UInt8) ∉ s) :
    (CString.ofArray w).bytes = w :=
  CString.ofArray_bytes fun member => noNul (inside member)

theorem fields_of_none {s : List UInt8} (none_left : strtok 32 s = none) : fields 32 s = [] := by
  have split := strtok_fields 32 s
  rwa [none_left] at split

theorem fields_of_some {s token rest : List UInt8} (found : strtok 32 s = some (token, rest)) :
    fields 32 s = token :: fields 32 rest := by
  have split := strtok_fields 32 s
  rwa [found] at split

theorem parseRead_words {bytes : List UInt8} {c : Invocation} (noNul : (0 : UInt8) ∉ bytes)
    (parsed : parseRead bytes = some c) :
    c.1.bytes ≠ [] ∧ ∃ more, fields 32 bytes = Invocation.words c ++ more := by
  obtain ⟨⟨command, rest⟩, first, pair⟩ := Option.map_eq_some_iff.mp parsed
  rw [CString.ofArray_bytes noNul] at first
  obtain ⟨nonempty, -, inside, left⟩ := strtok_token first
  have words := fields_of_some first
  have word := ofArray_sub inside noNul
  cases second : strtok 32 rest with
  | none =>
    dsimp only at pair
    rw [second] at pair
    subst pair
    have empty : Invocation.words (CString.ofArray command, CString.empty) = [command] := by
      simp [Invocation.words, word, CString.empty]
    refine ⟨by rw [word]; exact nonempty, [], ?_⟩
    rw [words, fields_of_none second]
    exact empty.symm
  | some next =>
    obtain ⟨data, behind⟩ := next
    dsimp only at pair
    rw [second] at pair
    subst pair
    obtain ⟨some_data, -, data_inside, -⟩ := strtok_token second
    have data_word := ofArray_sub (fun b member => left (data_inside member)) noNul
    have both : Invocation.words (CString.ofArray command, CString.ofArray data) =
        [command, data] := by
      simp [Invocation.words, word, data_word, some_data]
    refine ⟨by rw [word]; exact nonempty, fields 32 behind, ?_⟩
    rw [words, fields_of_some second]
    exact (congrArg (· ++ fields 32 behind) both).symm

theorem words_length (c : Invocation) :
    (Invocation.words c).flatten.length = Invocation.size c := by
  unfold Invocation.words Invocation.size
  split
  · rename_i empty
    simp [empty]
  · simp

theorem parsed_payload {bytes : List UInt8} {c : Invocation} (noNul : (0 : UInt8) ∉ bytes)
    (parsed : parseRead bytes = some c) :
    0 < Invocation.size c ∧ Invocation.size c ≤ payload 32 bytes ∧
      (payload 32 bytes = Invocation.size c → fields 32 bytes = Invocation.words c) := by
  obtain ⟨nonempty, more, split⟩ := parseRead_words noNul parsed
  have positive := List.length_pos_iff.mpr nonempty
  have total : payload 32 bytes = Invocation.size c + more.flatten.length := by
    rw [payload_fields, split, List.flatten_append, List.length_append, words_length]
  refine ⟨Nat.lt_of_lt_of_le positive (Nat.le_add_right _ _), by omega, ?_⟩
  intro exact_size
  cases more with
  | nil => rw [split, List.append_nil]
  | cons w rest =>
    have member : w ∈ fields 32 bytes := by
      rw [split]
      simp
    have long := List.length_pos_iff.mpr (mem_fields_ne_nil member)
    rw [List.flatten_cons, List.length_append] at total
    omega

theorem parseRead_of_words {bytes : List UInt8} {c : Invocation} (noNul : (0 : UInt8) ∉ bytes)
    (shape : fields 32 bytes = Invocation.words c) : parseRead bytes = some c := by
  have self := fun s : CString => ofArray_self s
  unfold parseRead
  rw [CString.ofArray_bytes noNul]
  cases first : strtok 32 bytes with
  | none =>
    rw [fields_of_none first] at shape
    cases shape
  | some pair =>
    obtain ⟨command, rest⟩ := pair
    rw [fields_of_some first] at shape
    obtain ⟨rfl, left⟩ := List.cons.inj shape
    dsimp only [Option.map_some]
    apply congrArg some
    apply Prod.ext
    · exact self c.1
    · cases second : strtok 32 rest with
      | none =>
        rw [fields_of_none second] at left
        by_cases empty : c.2.bytes = []
        · exact CString.ext_bytes empty.symm
        · rw [if_neg empty] at left
          cases left
      | some next =>
        obtain ⟨data, behind⟩ := next
        rw [fields_of_some second] at left
        by_cases empty : c.2.bytes = []
        · rw [if_pos empty] at left
          cases left
        · rw [if_neg empty] at left
          obtain ⟨rfl, -⟩ := List.cons.inj left
          exact self c.2

/- All reads together. The bytes that are no blanks are counted: the commands run use up all
   those of the requests, so no read has a word to spare. -/

def totalSize : List Invocation → Nat
  | [] => 0
  | c :: rest => Invocation.size c + totalSize rest

theorem payload_append (s t : List UInt8) : payload 32 (s ++ t) = payload 32 s + payload 32 t :=
  List.countP_append

theorem executed_payload {reads : List (List UInt8)} {calls : List Invocation}
    (noNul : ∀ r ∈ reads, (0 : UInt8) ∉ r) (parsed : reads.mapM parseRead = some calls) :
    totalSize (calls.filter known) ≤ payload 32 reads.flatten ∧
      (payload 32 reads.flatten = totalSize (calls.filter known) →
        reads.map (fields 32) = (calls.filter known).map Invocation.words) := by
  induction reads generalizing calls with
  | nil =>
    simp only [List.mapM_nil] at parsed
    obtain rfl := Option.some.inj parsed
    exact ⟨Nat.le_refl 0, fun _ => rfl⟩
  | cons r rest ih =>
    simp only [List.mapM_cons, Option.bind_eq_bind, Option.bind_eq_some_iff] at parsed
    obtain ⟨c, here, more, later, done⟩ := parsed
    obtain rfl := Option.some.inj done
    obtain ⟨positive, enough, whole⟩ := parsed_payload (noNul r List.mem_cons_self) here
    obtain ⟨bound, all⟩ := ih (fun s member => noNul s (List.mem_cons_of_mem r member)) later
    rw [List.flatten_cons, payload_append]
    cases run : known c with
    | false =>
      rw [List.filter_cons_of_neg (by simp [run])]
      exact ⟨by omega, fun same => by omega⟩
    | true =>
      rw [List.filter_cons_of_pos run]
      have sum : totalSize (c :: more.filter known) =
          Invocation.size c + totalSize (more.filter known) := rfl
      refine ⟨by omega, ?_⟩
      intro same
      rw [List.map_cons, List.map_cons, whole (by omega), all (by omega)]

theorem call_known (q : Request) : known q.call = true := by
  cases q with
  | requestPort vethName => simp [known, Request.call]
  | removePort vethName => simp [known, Request.call]
  | requestPhyIfname vethName => simp [known, Request.call]

theorem known_word {c : Invocation} (run : known c = true) :
    (32 : UInt8) ∉ c.1.bytes ∧ c.1.bytes.length ≤ 11 := by
  simp only [known, Bool.or_eq_true, decide_eq_true_eq] at run
  rcases run with (create | delete) | phy
  · rw [create]
    decide
  · rw [delete]
    decide
  · rw [phy]
    decide

/-- A request has no more words than its command and argument, and all of their bytes only
    if the argument is clean. -/
theorem request_payload (q : Request) :
    payload 32 q.bytes ≤ Invocation.size q.call ∧
      (payload 32 q.bytes = Invocation.size q.call ↔ Clean q.call) := by
  obtain ⟨word, short⟩ := known_word (call_known q)
  have command : payload 32 q.call.1.bytes = q.call.1.bytes.length := by
    apply List.countP_eq_length.mpr
    intro b member
    have differ : b ≠ 32 := fun same => word (same ▸ member)
    simpa using differ
  have total : payload 32 q.bytes = q.call.1.bytes.length +
      payload 32 (q.call.2.bytes.take (1022 - q.call.1.bytes.length)) := by
    rw [Request.bytes, requestCmd_bytes q.call.2 (by omega), payload_append, command]
    congr 1
  have cut := List.length_take_le (1022 - q.call.1.bytes.length) q.call.2.bytes
  have part : payload 32 (q.call.2.bytes.take (1022 - q.call.1.bytes.length)) ≤
      (q.call.2.bytes.take (1022 - q.call.1.bytes.length)).length := List.countP_le_length
  rw [List.length_take] at part
  unfold Invocation.size Clean
  rw [total]
  refine ⟨by omega, ?_⟩
  constructor
  · intro same
    have fits : q.call.2.bytes.length ≤ 1022 - q.call.1.bytes.length := by omega
    rw [List.take_of_length_le fits] at same
    have every : payload 32 q.call.2.bytes = q.call.2.bytes.length := by omega
    refine ⟨?_, by unfold CMD_SIZE; omega⟩
    intro blank
    have pass := List.countP_eq_length.mp every 32 blank
    simp at pass
  · rintro ⟨single, fits⟩
    unfold CMD_SIZE at fits
    rw [List.take_of_length_le (by omega)]
    congr 1
    apply List.countP_eq_length.mpr
    intro b member
    have differ : b ≠ 32 := fun same => single (same ▸ member)
    simpa using differ

theorem clean_request_words {q : Request} (clean : Clean q.call) :
    fields 32 q.bytes = Invocation.words q.call := by
  obtain ⟨single, fits⟩ := clean
  obtain ⟨word, short⟩ := known_word (call_known q)
  have nonempty : q.call.1.bytes ≠ [] := by
    cases q with
    | requestPort vethName => exact List.cons_ne_nil _ _
    | removePort vethName => exact List.cons_ne_nil _ _
    | requestPhyIfname vethName => exact List.cons_ne_nil _ _
  unfold CMD_SIZE at fits
  rw [Request.bytes, requestCmd_bytes q.call.2 (by omega), List.take_of_length_le (by omega),
    fields_word nonempty word, fields_whole single]
  rfl

theorem requests_payload (requests : List Request) :
    payload 32 (requests.map Request.bytes).flatten ≤ totalSize (requests.map Request.call) ∧
      (totalSize (requests.map Request.call) ≤
          payload 32 (requests.map Request.bytes).flatten →
        ∀ q ∈ requests, Clean q.call) := by
  induction requests with
  | nil => exact ⟨Nat.le_refl 0, fun _ q member => by cases member⟩
  | cons q rest ih =>
    obtain ⟨bound, all⟩ := ih
    obtain ⟨enough, whole⟩ := request_payload q
    have sum : totalSize ((q :: rest).map Request.call) =
        Invocation.size q.call + totalSize (rest.map Request.call) := rfl
    rw [List.map_cons, List.flatten_cons, payload_append, sum]
    refine ⟨by omega, ?_⟩
    intro same p member
    rcases List.mem_cons.mp member with rfl | later
    · exact whole.mp (by omega)
    · exact all (by omega) p later

theorem request_noNul (requests : List Request) :
    (0 : UInt8) ∉ (requests.map Request.bytes).flatten := by
  intro member
  obtain ⟨bytes, at_q, inside⟩ := List.mem_flatten.mp member
  obtain ⟨q, -, rfl⟩ := List.mem_map.mp at_q
  exact (requestCmd q.call.1 q.call.2).noNul inside

theorem parse_framed {requests : List Request} {reads : List (List UInt8)}
    (noNul : ∀ r ∈ reads, (0 : UInt8) ∉ r)
    (shape : reads.map (fields 32) = requests.map fun q => Invocation.words q.call) :
    reads.mapM parseRead = some (requests.map Request.call) := by
  induction reads generalizing requests with
  | nil =>
    cases requests with
    | nil => rfl
    | cons q rest => cases shape
  | cons r more ih =>
    cases requests with
    | nil => cases shape
    | cons q rest =>
      obtain ⟨here, later⟩ := List.cons.inj shape
      have first := parseRead_of_words (noNul r List.mem_cons_self) here
      have others := ih (fun s member => noNul s (List.mem_cons_of_mem r member)) later
      simp [first, others]

theorem delivered_noNul {requests : List Request} {reads : List (List UInt8)}
    (delivered : Delivered requests reads) : ∀ r ∈ reads, (0 : UInt8) ∉ r := by
  intro r member zero
  apply request_noNul requests
  rw [← delivered.2]
  exact List.mem_flatten.mpr ⟨r, member, zero⟩

theorem framed_parse {requests : List Request} {reads : List (List UInt8)}
    (delivered : Delivered requests reads) (framed : Framed requests reads) :
    reads.mapM parseRead = some (requests.map Request.call) := by
  obtain ⟨clean, -, shape⟩ := framed
  apply parse_framed (delivered_noNul delivered)
  rw [shape]
  apply List.map_congr_left
  intro q member
  exact clean_request_words (clean q member)

theorem calls_known (requests : List Request) :
    (requests.map Request.call).filter known = requests.map Request.call := by
  apply List.filter_eq_self.mpr
  intro c member
  obtain ⟨q, -, rfl⟩ := List.mem_map.mp member
  exact call_known q

theorem framed_of_executed {requests : List Request} {reads : List (List UInt8)}
    (delivered : Delivered requests reads) (short : ∀ r ∈ reads, r.length ≤ CMD_SIZE - 1)
    (run : executed reads = some (requests.map Request.call)) : Framed requests reads := by
  obtain ⟨calls, parsed, same⟩ := Option.map_eq_some_iff.mp run
  obtain ⟨used, whole⟩ := executed_payload (delivered_noNul delivered) parsed
  obtain ⟨offered, clean⟩ := requests_payload requests
  rw [same, delivered.2] at used whole
  have all_clean := clean used
  refine ⟨all_clean, short, ?_⟩
  rw [whole (Nat.le_antisymm offered used), List.map_map]
  apply List.map_congr_left
  intro q member
  exact (clean_request_words (all_clean q member)).symm

theorem calls_framed_iff {requests : List Request} {turns : List (Outcomes × List UInt8)}
    {d : Daemon} {t : Traced} (delivered : Delivered requests (turns.map Prod.snd))
    (served : handleClient turns ⟨d, []⟩ = .ok t) :
    t.calls = requests.map Request.call ↔ Framed requests (turns.map Prod.snd) := by
  obtain ⟨short, cs, parsed, calls, -⟩ := handleClient_ok served
  rw [List.nil_append] at calls
  rw [calls]
  constructor
  · intro same
    refine framed_of_executed delivered ?_ ?_
    · intro r member
      obtain ⟨turn, at_turn, rfl⟩ := List.mem_map.mp member
      exact short turn at_turn
    · rw [executed, parsed, Option.map_some, same]
  · intro framed
    rw [framed_parse delivered framed] at parsed
    rw [← Option.some.inj parsed, calls_known]

theorem framed_carriedOut {requests : List Request} {reads : List (List UInt8)}
    (delivered : Delivered requests reads) (framed : Framed requests reads) :
    CarriedOut requests reads := by
  rintro turns d rfl free
  have parsed := framed_parse delivered framed
  have short : ∀ turn ∈ turns, turn.2.length ≤ CMD_SIZE - 1 := fun turn member =>
    framed.2.1 turn.2 (List.mem_map_of_mem member)
  obtain ⟨t, served⟩ := handleClient_unhindered free short parsed ⟨d, []⟩
  obtain ⟨-, cs, parsed', calls, performed⟩ := handleClient_ok served
  rw [parsed] at parsed'
  obtain rfl := Option.some.inj parsed'
  rw [List.nil_append, calls_known] at calls
  refine ⟨t.daemon, ?_, performed⟩
  rw [served, ← calls]

def smoothly : Outcomes := fun _ => true

theorem smoothly_unhindered : Unhindered smoothly := ⟨rfl, rfl, rfl⟩

theorem carriedOut_smoothly {requests : List Request} {reads : List (List UInt8)}
    (carried : CarriedOut requests reads) :
    ∃ d', handleClient (reads.map fun r => (smoothly, r)) ⟨bareDaemon, []⟩ =
      .ok ⟨d', requests.map Request.call⟩ := by
  obtain ⟨d', served, -⟩ := carried (reads.map fun r => (smoothly, r)) bareDaemon (by simp)
    (by
      intro turn member
      obtain ⟨r, -, rfl⟩ := List.mem_map.mp member
      exact smoothly_unhindered)
  exact ⟨d', served⟩

/-- However the stream is cut, the loop carries out the requests when every argument is a whole
    word, no read fills the buffer and each read is one request, and never otherwise; nor does
    any loop that gets to the end of the connection, whatever failed on the way. -/
theorem commands_framed_iff {requests : List Request} {reads : List (List UInt8)}
    (delivered : Delivered requests reads) :
    (CarriedOut requests reads ↔ Framed requests reads) ∧
      ∀ turns d t, turns.map Prod.snd = reads → handleClient turns ⟨d, []⟩ = .ok t →
        (t.calls = requests.map Request.call ↔ Framed requests reads) := by
  constructor
  · constructor
    · intro carried
      obtain ⟨d', served⟩ := carriedOut_smoothly carried
      have same : (reads.map fun r => (smoothly, r)).map Prod.snd = reads := by simp
      rw [← same] at delivered ⊢
      exact (calls_framed_iff delivered served).mp rfl
    · exact framed_carriedOut delivered
  · rintro turns d t rfl served
    exact calls_framed_iff delivered served

def vethW : CString := ⟨ascii "w", by decide⟩

/-- Three commands in three reads. -/
theorem three_reads_framed :
    CarriedOut [.requestPort vethW, .requestPhyIfname vethW, .removePort vethW]
      [ascii "create_port w", ascii "get_phy_if w", ascii "delete_port w"] :=
  (commands_framed_iff (by decide : Delivered
    [.requestPort vethW, .requestPhyIfname vethW, .removePort vethW] _)).1.mpr (by decide)

/-- create_port w arrives in two reads, and the port of the empty name is created; two
    commands arrive in one read, and the second is lost. -/
theorem stream_cut_elsewhere :
    (Delivered [.requestPort vethW] [ascii "create_port ", ascii "w"] ∧
      (left (handleClient [(smoothly, ascii "create_port "), (smoothly, ascii "w")]
        ⟨bareDaemon, []⟩)).calls = [(createPortCommand, CString.empty)] ∧
      ¬ CarriedOut [.requestPort vethW] [ascii "create_port ", ascii "w"]) ∧
    (Delivered [.requestPort vethW, .requestPhyIfname vethW]
        [ascii "create_port wget_phy_if w"] ∧
      ¬ CarriedOut [.requestPort vethW, .requestPhyIfname vethW]
        [ascii "create_port wget_phy_if w"]) := by
  refine ⟨⟨by decide, by decide, ?_⟩, by decide, ?_⟩
  · intro carried
    obtain ⟨d', served⟩ := carriedOut_smoothly carried
    have calls : _ = [(createPortCommand, vethW)] := congrArg (fun r => (left r).calls) served
    exact absurd calls (by decide)
  · intro carried
    obtain ⟨d', served⟩ := carriedOut_smoothly carried
    have calls : _ = [(createPortCommand, vethW), (getPhyIfCommand, vethW)] :=
      congrArg (fun r => (left r).calls) served
    exact absurd calls (by decide)

end XSKStream
