import XSKNet.PortCommands

/- handle_client and handle_command of socket_handler.c, one read at a time, and what they
   make of the bytes of an untrusted peer. -/
namespace XSKCommandSocket
open CStrings ShellWords XSKVeth XSKInterfaces XSKPorts

def createPortCommand : CString := ⟨ascii "create_port", by decide⟩
def deletePortCommand : CString := ⟨ascii "delete_port", by decide⟩
def getPhyIfCommand : CString := ⟨ascii "get_phy_if", by decide⟩

def okReply : List UInt8 := ascii "OK"

def commands : List (CString × (Outcomes → CString → Daemon → Except Daemon Daemon)) :=
  [(createPortCommand, createPort), (deletePortCommand, fun o p d => .ok (deletePort o p d))]

def handleCommand (o : Outcomes) (command data : CString) (d : Daemon) :
    Except Daemon (Int × Daemon) :=
  match commands.find? fun c => decide (c.1 = command) with
  | some (_, handler) => (handler o data d).map fun d => (0, d)
  | none => .ok (-1, d)

/-- The two strtok calls on the received bytes: command and data, data empty without a
    second token; none when there is no first token. -/
def parseRead (bytes : List UInt8) : Option (CString × CString) :=
  (strtok 32 (CString.ofArray bytes).bytes).map fun (command, rest) =>
    (CString.ofArray command,
      match strtok 32 rest with
      | some (possibleData, _) => CString.ofArray possibleData
      | none => CString.empty)

/-- One turn of the read loop: the reply and the daemon after it. Without a first token the
    null pointer goes to strcmp and the process ends, as it does when the reply cannot be
    written. -/
def handleRead (dev : CString) (o : Outcomes) (bytes : List UInt8) (d : Daemon) :
    Except Daemon (List UInt8 × Daemon) :=
  match parseRead bytes with
  | none => .error d
  | some (command, data) =>
    if command = getPhyIfCommand then
      if o .writeReply then .ok (dev.bytes, d) else .error d
    else
      match handleCommand o command data d with
      | .error d => .error d
      | .ok (_, d) => if o .writeReply then .ok (okReply, d) else .error d

def after (r : Except Daemon (List UInt8 × Daemon)) : Daemon :=
  match r with
  | .error d => d
  | .ok (_, d) => d

def systemCalls (dev : CString) (o : Outcomes) (bytes : List UInt8) (d : Daemon) :
    List CString :=
  (after (handleRead dev o bytes d)).commands.drop d.commands.length

/- Dispatch. -/

theorem handleCommand_create (o : Outcomes) (data : CString) (d : Daemon) :
    handleCommand o createPortCommand data d = (createPort o data d).map fun d => (0, d) := by
  simp [handleCommand, commands]

theorem handleCommand_delete (o : Outcomes) (data : CString) (d : Daemon) :
    handleCommand o deletePortCommand data d = .ok (0, deletePort o data d) := by
  have differ : createPortCommand ≠ deletePortCommand := by decide
  simp [handleCommand, commands, differ, Except.map]

theorem handleCommand_unknown (o : Outcomes) {command : CString} (data : CString) (d : Daemon)
    (not_create : command ≠ createPortCommand) (not_delete : command ≠ deletePortCommand) :
    handleCommand o command data d = .ok (-1, d) := by
  simp [handleCommand, commands, Ne.symm not_create, Ne.symm not_delete]

def ended (r : Except Daemon Daemon) : Daemon :=
  match r with
  | .error d => d
  | .ok d => d

theorem after_create {dev : CString} {o : Outcomes} {bytes : List UInt8} {data : CString}
    (d : Daemon) (parsed : parseRead bytes = some (createPortCommand, data)) :
    after (handleRead dev o bytes d) = ended (createPort o data d) := by
  have differ : createPortCommand ≠ getPhyIfCommand := by decide
  simp only [handleRead, parsed, differ, if_false, handleCommand_create]
  cases createPort o data d with
  | error d' => rfl
  | ok d' =>
    cases o .writeReply with
    | false => simp [Except.map, after, ended]
    | true => simp [Except.map, after, ended]

theorem after_delete {dev : CString} {o : Outcomes} {bytes : List UInt8} {data : CString}
    (d : Daemon) (parsed : parseRead bytes = some (deletePortCommand, data)) :
    after (handleRead dev o bytes d) = deletePort o data d := by
  have differ : deletePortCommand ≠ getPhyIfCommand := by decide
  simp only [handleRead, parsed, differ, if_false, handleCommand_delete]
  cases reply : o .writeReply with
  | false => simp [after]
  | true => simp [after]

theorem after_other {dev : CString} {o : Outcomes} {bytes : List UInt8} (d : Daemon)
    (other : ∀ command data, parseRead bytes = some (command, data) →
      command ≠ createPortCommand ∧ command ≠ deletePortCommand) :
    after (handleRead dev o bytes d) = d := by
  unfold handleRead
  cases parsed : parseRead bytes with
  | none => rfl
  | some pair =>
    obtain ⟨command, data⟩ := pair
    obtain ⟨not_create, not_delete⟩ := other command data parsed
    dsimp only
    rw [handleCommand_unknown o data d not_create not_delete]
    cases o .writeReply with
    | false => split <;> rfl
    | true => split <;> rfl

/- The command lines. -/

theorem snprintf_fits {size : Nat} {pieces : List CString}
    (fits : ((pieces.map CString.bytes).flatten).length ≤ size - 1) :
    (CString.snprintf size pieces).bytes = (pieces.map CString.bytes).flatten := by
  rw [CString.snprintf_bytes, List.take_of_length_le fits]

theorem name_length_le (p suffix : CString) :
    (CString.snprintf IFNAMSIZ [p, suffix]).bytes.length ≤ 15 := by
  rw [CString.snprintf_bytes]
  exact List.length_take_le 15 _

theorem createCmd_line {inner outer : CString} (fits1 : inner.bytes.length ≤ 15)
    (fits2 : outer.bytes.length ≤ 15) :
    (createCmd inner outer).bytes =
      line createScriptPath.bytes [inner.bytes, outer.bytes] := by
  have path : createScriptPath.bytes.length = 24 := by decide
  rw [createCmd, snprintf_fits]
  · simp [line, space]
  · simp only [List.map_cons, List.map_nil, List.flatten_cons, List.flatten_nil,
      List.length_append, List.length_nil, path, space, List.length_singleton]
    unfold CMD_SIZE
    omega

theorem deleteCmd_line {inner : CString} (fits : inner.bytes.length ≤ 15) :
    (deleteCmd inner).bytes = line deleteScriptPath.bytes [inner.bytes] := by
  have path : deleteScriptPath.bytes.length = 24 := by decide
  rw [deleteCmd, snprintf_fits]
  · simp [line, space]
  · simp only [List.map_cons, List.map_nil, List.flatten_cons, List.flatten_nil,
      List.length_append, List.length_nil, path, space, List.length_singleton]
    unfold CMD_SIZE
    omega

theorem createPort_ended (o : Outcomes) (p : CString) (d : Daemon) :
    (ended (createPort o p d)).commands =
        d.commands ++ [createCmd (innerName p) (outerName p)] ∧
      (ended (createPort o p d)).veths = (vethListAdd (o .malloc) d.veths p).2 := by
  unfold createPort
  dsimp only
  unfold ended
  cases loadXdpAndAttachToIfname o .outer (outerName p) .redirectDummy false
      (createVeth (o .createScript) (innerName p) (outerName p) d.kernel) with
  | none => exact ⟨rfl, rfl⟩
  | some first =>
    obtain ⟨err, k⟩ := first
    dsimp only
    cases loadXdpAndAttachToIfname o .inner (innerName p) .sock true k with
    | none => exact ⟨rfl, rfl⟩
    | some second => exact ⟨rfl, rfl⟩

theorem name_plain_iff (p : CString) {n : CString} {s : List UInt8} (nonempty : s ≠ [])
    (bytes : n.bytes = (p.bytes ++ s).take 15) (suffix : ∀ b ∈ s, plainByte b = true) :
    Plain n.bytes ↔ ∀ b ∈ p.bytes.take 15, plainByte b = true := by
  rw [bytes, List.take_append]
  constructor
  · intro plain b member
    exact plain.2 b (List.mem_append_left _ member)
  · intro clean
    constructor
    · cases stem : p.bytes with
      | nil =>
        cases s with
        | nil => exact absurd rfl nonempty
        | cons b rest => simp
      | cons b rest => simp
    · intro b member
      rcases List.mem_append.mp member with left | right
      · exact clean b left
      · exact suffix b (List.mem_of_mem_take right)

theorem innerName_plain_iff (p : CString) :
    Plain (innerName p).bytes ↔ ∀ b ∈ p.bytes.take 15, plainByte b = true :=
  name_plain_iff p (List.cons_ne_nil _ _) (innerName_bytes p) (by decide)

theorem outerName_plain_iff (p : CString) :
    Plain (outerName p).bytes ↔ ∀ b ∈ p.bytes.take 15, plainByte b = true :=
  name_plain_iff p (List.cons_ne_nil _ _) (outerName_bytes p) (by decide)

/- Which reads are harmless. -/

/-- The shell runs one of the two scripts once, with plain arguments. -/
def CleanCall (cmd : CString) : Prop :=
  (∃ inner outer, Invokes cmd.bytes createScriptPath.bytes [inner, outer]) ∨
    ∃ inner, Invokes cmd.bytes deleteScriptPath.bytes [inner]

/-- A create_port or delete_port command has plain bytes only among the first 15 bytes of its
    data. -/
def Harmless (bytes : List UInt8) : Prop :=
  ∀ command data, parseRead bytes = some (command, data) →
    command = createPortCommand ∨ command = deletePortCommand →
      ∀ b ∈ data.bytes.take 15, plainByte b = true

theorem createScriptPath_plain : Plain createScriptPath.bytes := by decide

theorem deleteScriptPath_plain : Plain deleteScriptPath.bytes := by decide

theorem cleanCall_bytes {cmd : CString} (clean : CleanCall cmd) {b : UInt8}
    (member : b ∈ cmd.bytes) : b = 32 ∨ plainByte b = true := by
  rcases clean with ⟨inner, outer, run⟩ | ⟨inner, run⟩
  · exact invokes_bytes createScriptPath_plain run member
  · exact invokes_bytes deleteScriptPath_plain run member

theorem plain_of_cleanCall {cmd p : CString} (clean : CleanCall cmd)
    (shown : (innerName p).bytes ⊆ cmd.bytes) (no_space : (32 : UInt8) ∉ p.bytes) :
    ∀ b ∈ p.bytes.take 15, plainByte b = true := by
  intro b member
  have in_name : b ∈ (innerName p).bytes := by
    rw [innerName_bytes, List.take_append]
    exact List.mem_append_left _ member
  rcases cleanCall_bytes clean (shown in_name) with rfl | plain
  · exact absurd (List.mem_of_mem_take member) no_space
  · exact plain

theorem createCmd_clean_iff {p : CString} (no_space : (32 : UInt8) ∉ p.bytes) :
    CleanCall (createCmd (innerName p) (outerName p)) ↔
      ∀ b ∈ p.bytes.take 15, plainByte b = true := by
  have text := createCmd_line (name_length_le p innerSuffix) (name_length_le p outerSuffix)
  change (createCmd (innerName p) (outerName p)).bytes =
    line _ [(innerName p).bytes, (outerName p).bytes] at text
  constructor
  · intro clean
    apply plain_of_cleanCall clean _ no_space
    intro b member
    rw [text]
    simp [line, member]
  · intro plain
    left
    refine ⟨(innerName p).bytes, (outerName p).bytes, ?_⟩
    rw [text, invokes_iff _ _ createScriptPath_plain]
    intro a member
    rcases List.mem_cons.mp member with rfl | last
    · exact (innerName_plain_iff p).mpr plain
    · rw [List.mem_singleton.mp last]
      exact (outerName_plain_iff p).mpr plain

theorem deleteCmd_clean_iff {p : CString} (no_space : (32 : UInt8) ∉ p.bytes) :
    CleanCall (deleteCmd (innerName p)) ↔ ∀ b ∈ p.bytes.take 15, plainByte b = true := by
  have text := deleteCmd_line (name_length_le p innerSuffix)
  change (deleteCmd (innerName p)).bytes = line _ [(innerName p).bytes] at text
  constructor
  · intro clean
    apply plain_of_cleanCall clean _ no_space
    intro b member
    rw [text]
    simp [line, member]
  · intro plain
    right
    refine ⟨(innerName p).bytes, ?_⟩
    rw [text, invokes_iff _ _ deleteScriptPath_plain]
    intro a member
    rw [List.mem_singleton.mp member]
    exact (innerName_plain_iff p).mpr plain

theorem parseRead_no_space {bytes : List UInt8} {command data : CString}
    (parsed : parseRead bytes = some (command, data)) : (32 : UInt8) ∉ data.bytes := by
  obtain ⟨⟨token, rest⟩, -, fields⟩ := Option.map_eq_some_iff.mp parsed
  obtain ⟨-, rfl⟩ := Prod.mk.inj fields
  cases second : strtok 32 rest with
  | none => simp [CString.empty]
  | some pair =>
    obtain ⟨possibleData, left⟩ := pair
    intro member
    exact (strtok_token second).2.1 (List.takeWhile_subset _ member)

theorem systemCalls_create {dev : CString} {o : Outcomes} {bytes : List UInt8}
    {data : CString} (d : Daemon) (parsed : parseRead bytes = some (createPortCommand, data)) :
    systemCalls dev o bytes d = [createCmd (innerName data) (outerName data)] := by
  rw [systemCalls, after_create d parsed, (createPort_ended o data d).1, List.drop_left]

theorem systemCalls_delete {dev : CString} {o : Outcomes} {bytes : List UInt8}
    {data : CString} (d : Daemon) (parsed : parseRead bytes = some (deletePortCommand, data)) :
    systemCalls dev o bytes d = [deleteCmd (innerName data)] := by
  obtain ⟨k, -, -, commands, -⟩ := deletePort_spec o data d
  rw [systemCalls, after_delete d parsed, commands, List.drop_left]

theorem systemCalls_other {dev : CString} {o : Outcomes} {bytes : List UInt8} (d : Daemon)
    (other : ∀ command data, parseRead bytes = some (command, data) →
      command ≠ createPortCommand ∧ command ≠ deletePortCommand) :
    systemCalls dev o bytes d = [] := by
  rw [systemCalls, after_other d other, List.drop_length]

theorem forall_parsed {bytes : List UInt8} {command data : CString} {P : CString → CString → Prop}
    (parsed : parseRead bytes = some (command, data)) :
    (∀ command' data', parseRead bytes = some (command', data') → P command' data') ↔
      P command data := by
  constructor
  · intro all
    exact all command data parsed
  · intro this command' data' found
    rw [parsed] at found
    cases found
    exact this

theorem forall_unparsed {bytes : List UInt8} {P : CString → CString → Prop}
    (unparsed : parseRead bytes = none) (command data : CString)
    (found : parseRead bytes = some (command, data)) : P command data := by
  rw [unparsed] at found
  cases found

/-- What a peer sends is run by the shell as one clean script call, or not at all, exactly
    when the data of a create_port or delete_port command is plain where it is used. -/
theorem system_calls_clean_iff (dev : CString) (o : Outcomes) (bytes : List UInt8) (d : Daemon) :
    (∀ cmd ∈ systemCalls dev o bytes d, CleanCall cmd) ↔ Harmless bytes := by
  cases parsed : parseRead bytes with
  | none =>
    rw [systemCalls_other d (forall_unparsed parsed)]
    have harmless : Harmless bytes := forall_unparsed parsed
    simp [harmless]
  | some pair =>
    obtain ⟨command, data⟩ := pair
    have no_space := parseRead_no_space parsed
    have harmless : Harmless bytes ↔
        (command = createPortCommand ∨ command = deletePortCommand →
          ∀ b ∈ data.bytes.take 15, plainByte b = true) := forall_parsed parsed
    rw [harmless]
    by_cases creates : command = createPortCommand
    · subst creates
      rw [systemCalls_create d parsed]
      simpa using createCmd_clean_iff no_space
    · by_cases deletes : command = deletePortCommand
      · subst deletes
        rw [systemCalls_delete d parsed]
        simpa using deleteCmd_clean_iff no_space
      · rw [systemCalls_other d ((forall_parsed parsed).mpr ⟨creates, deletes⟩)]
        simp [creates, deletes]

/-- The semicolon of a prefix ends the script call, and id is run as a command of its own. -/
theorem semicolon_reaches_shell :
    systemCalls CString.empty (fun _ => true) (ascii "create_port ;id;") bareDaemon =
      [⟨ascii "./scripts/create_veth.sh ;id;_inner ;id;_outer", by decide⟩] ∧
    ¬ ∀ cmd ∈ systemCalls CString.empty (fun _ => true) (ascii "create_port ;id;") bareDaemon,
      CleanCall cmd := by
  have calls : systemCalls CString.empty (fun _ => true) (ascii "create_port ;id;")
      bareDaemon = [⟨ascii "./scripts/create_veth.sh ;id;_inner ;id;_outer", by decide⟩] := by
    decide
  refine ⟨calls, ?_⟩
  rw [calls]
  intro clean
  have semicolon : (59 : UInt8) = 32 ∨ plainByte 59 = true :=
    cleanCall_bytes (clean _ (List.mem_singleton_self _)) (by decide)
  exact absurd semicolon (by decide)

end XSKCommandSocket
