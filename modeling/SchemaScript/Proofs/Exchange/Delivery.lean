/- Delivery: every reply is an object of JSON without characters below the space, so that a receiver
   that stops at a zero gets all of it, and gets what a caller that takes texts gets. -/
import SchemaScript.Exchange.Reply
import SchemaScript.Proofs.Json.Plain
import SchemaScript.Proofs.Schema.RoundTrip
import SchemaScript.Proofs.Script.Timestamp
import SchemaScript.Proofs.Text.Utf8

namespace SchemaScript.Exchange

open Json (Shallow)

/-- A strict reader takes the text for an object that says first whether the request succeeded, and
no character below the space stands in it. -/
structure IsReply (t : Text) : Prop where
  object : ∃ success members,
    Json.read? Options.depthLimit t
      = some (.object (("success".toList, .bool success) :: members))
  plain : t.Plain

section Replies

theorem isReply_compact {success : Bool} {members : List (Text × Json)}
    (h : ∀ m ∈ members, Shallow (Options.depthLimit - 1) m.2) :
    IsReply (Json.object (("success".toList, .bool success) :: members)).compact := by
  refine ⟨⟨success, members, ?_⟩, Json.plain_compact _⟩
  have hshallow : Shallow Options.depthLimit
      (.object (("success".toList, .bool success) :: members)) :=
    .object (List.forall_mem_cons.2 ⟨.bool _ _, h⟩)
  have hread := Json.read?_compact hshallow Json.isGap_nil
  rwa [List.append_nil] at hread

theorem isReply_success {data : Json} (h : Shallow (Options.depthLimit - 1) data) :
    IsReply (Reply.success data).text :=
  isReply_compact (List.forall_mem_singleton.2 h)

/-- Whatever a failure says, its message and its kind are strings of the object. -/
theorem isReply_failure (message kind : Text) : IsReply (Reply.failure message kind).text := by
  refine isReply_compact ?_
  simp only [List.forall_mem_cons]
  exact ⟨.string _ _, .string _ _, List.forall_mem_nil _⟩

theorem isReply_notText (what : Text) : IsReply (notText what) :=
  isReply_compact (List.forall_mem_singleton.2 (.string _ _))

theorem isReply_parseText (content : Text) : IsReply (parseText content) := by
  unfold parseText parse
  cases Schema.ofText content with
  | ok schema => exact isReply_success (schema.shallow_toJson.mono (by decide))
  | error f => exact isReply_failure f.message f.kind

theorem isReply_buildText (time : Timestamp) (content options : Text) :
    IsReply (buildText time content options) := by
  unfold buildText build
  cases Options.read? options with
  | none => exact isReply_failure _ _
  | some o =>
      cases Schema.ofText content with
      | ok schema => exact isReply_success (.string _ _)
      | error f => exact isReply_failure f.message f.kind

end Replies

section Bytes

variable {bytes : Bytes} {t : Text}

theorem untilZero_append (h : 0 ∉ bytes) (behind : Bytes) :
    untilZero (bytes ++ 0 :: behind) = bytes := by
  have hall : ∀ b ∈ bytes, decide (b ≠ 0) = true := fun b hb =>
    decide_eq_true fun hzero => h (hzero ▸ hb)
  rw [untilZero, List.takeWhile_append_of_pos hall,
    List.takeWhile_cons_of_neg (by decide), List.append_nil]

theorem zeroEnded?_append (h : 0 ∉ bytes) (behind : Bytes) :
    zeroEnded? (bytes ++ 0 :: behind) = Utf8.decode? bytes := by
  rw [zeroEnded?, untilZero_append h]

/-- The bytes of a text, with no zero among them: whoever reads them up to the zero behind them, with
anything behind that, has read the whole text. -/
structure Delivers (sent : Bytes) (t : Text) : Prop where
  whole : sent = Utf8.encode t
  unbroken : 0 ∉ sent
  nonempty : sent ≠ []
  received : ∀ behind, zeroEnded? (sent ++ 0 :: behind) = some t

theorem IsReply.ne_nil (h : IsReply t) : t ≠ [] := by
  rintro rfl
  obtain ⟨_, _, hread⟩ := h.object
  cases hread

theorem IsReply.delivers_send (h : IsReply t) : Delivers (send t) t := by
  have hzero : 0 ∉ Utf8.encode t := Utf8.zero_not_mem_encode h.plain.zero_not_mem
  have hsend : send t = Utf8.encode t := by
    have hcontains : t.contains '\x00' = false := by
      rw [List.contains_eq_mem]
      exact decide_eq_false h.plain.zero_not_mem
    rw [send, hcontains, if_neg Bool.false_ne_true]
  rw [hsend]
  exact ⟨rfl, hzero, Utf8.encode_ne_nil h.ne_nil, fun behind => by
    rw [zeroEnded?_append hzero, Utf8.decode?_encode]⟩

/-- Memory in which a text stands as bytes up to the first zero. -/
def Holds (memory : Bytes) (t : Text) : Prop :=
  ∃ bytes behind, memory = bytes ++ 0 :: behind ∧ 0 ∉ bytes ∧ Utf8.decode? bytes = some t

theorem holds_encode (h : '\x00' ∉ t) (behind : Bytes) :
    Holds (Utf8.encode t ++ 0 :: behind) t :=
  ⟨_, behind, rfl, Utf8.zero_not_mem_encode h, Utf8.decode?_encode t⟩

theorem Holds.zeroEnded? {memory : Bytes} (h : Holds memory t) : zeroEnded? memory = some t := by
  obtain ⟨bytes, behind, rfl, hzero, hdecode⟩ := h
  rw [zeroEnded?_append hzero, hdecode]

end Bytes

section Clock

theorem escape_timestamp (time : Timestamp) : ∀ c ∈ time.text, Json.escape c = [c] := by
  have hsign : Json.escape (if time.offset < 0 then '-' else '+')
      = [if time.offset < 0 then '-' else '+'] := by
    split <;> rfl
  have hmark {c : Char} (h : Json.escape c = [c]) (n : Nat) :
      ∀ d ∈ c :: Text.ofNatPadded 2 n, Json.escape d = [d] :=
    List.forall_mem_cons.2 ⟨h, Json.escape_padded 2 n⟩
  have hyear : ∀ c ∈ Timestamp.yearText time.year, Json.escape c = [c] := by
    intro c h
    rcases Timestamp.mem_yearText h with rfl | rfl | h
    · rfl
    · rfl
    · exact Json.escape_padded 4 _ c h
  simp only [Timestamp.text, List.forall_mem_append]
  exact ⟨⟨⟨⟨⟨⟨⟨hyear, hmark rfl _⟩, hmark rfl _⟩, hmark rfl _⟩, hmark rfl _⟩,
    hmark rfl _⟩, hmark hsign _⟩, hmark rfl _⟩

/-- A script says the time in its third line, and the rest of it does not depend on the time. -/
theorem render_time (indent : Nat) (schema : Schema) :
    ∃ rest, ∀ time : Timestamp, Script.render time indent schema
      = "-- Generated with yasql\n--\n-- Timestamp: ".toList ++ time.text ++ rest := by
  refine ⟨'\n' :: Text.join ['\n'] (("-- yasql version: ".toList ++ Script.version) ::
    (if (Script.metadataLines schema.database.metadata).isEmpty then []
      else "--".toList :: Script.metadataLines schema.database.metadata) ++ [[]]
    ++ (Script.Style.statements ⟨schema.database.source.dialect, indent⟩ schema).flatMap
        fun block => block ++ [[]]), fun time => ?_⟩
  simp [Script.render, Script.ofSchema, Script.text, Script.header, Text.join]

/-- The beginning of the reply with a script, up to the timestamp. -/
def beforeTime : Text :=
  "\x7b\"success\":true,\"data\":\"-- Generated with yasql\\n--\\n-- Timestamp: "

/-- Texts for different times are the same, or say the time at one place and are the same elsewhere. -/
def SaysTime (f : Timestamp → Text) : Prop :=
  (∀ time time', f time = f time') ∨
    ∃ rest, ∀ time : Timestamp, f time = beforeTime ++ time.text ++ rest

theorem text_success_string (t : Text) : (Reply.success (.string t)).text
    = "\x7b\"success\":true,\"data\":\"".toList ++ t.flatMap Json.escape ++ ['"', '\x7d'] := by
  have hsuccess : Json.quoted "success" = "\"success\"".toList := by decide
  have hdata : Json.quoted "data" = "\"data\"".toList := by decide
  change '\x7b' :: (Json.quoted "success" ++ ':' :: "true".toList
    ++ ',' :: (Json.quoted "data" ++ ':' :: Json.quoted t)) ++ ['\x7d'] = _
  rw [hsuccess, hdata]
  simp [Json.quoted]

theorem saysTime_buildText (content options : Text) :
    SaysTime fun time => buildText time content options := by
  unfold buildText build
  cases Options.read? options with
  | none => exact .inl fun _ _ => rfl
  | some o =>
      cases Schema.ofText content with
      | error f => exact .inl fun _ _ => rfl
      | ok schema =>
          obtain ⟨rest, hrender⟩ := render_time (Script.resolveIndent o.width) schema
          refine .inr ⟨rest.flatMap Json.escape ++ ['"', '\x7d'], fun time => ?_⟩
          have htime : time.text.flatMap Json.escape = time.text := by
            rw [List.flatMap_congr (escape_timestamp time), List.flatMap_singleton']
          have hhead : "-- Generated with yasql\n--\n-- Timestamp: ".toList.flatMap Json.escape
              = "-- Generated with yasql\\n--\\n-- Timestamp: ".toList := by decide
          have hbefore : "\x7b\"success\":true,\"data\":\"".toList
              ++ "-- Generated with yasql\\n--\\n-- Timestamp: ".toList = beforeTime := rfl
          simp only [hrender, text_success_string, List.flatMap_append, htime, hhead, ← hbefore,
            List.append_assoc]

end Clock

/-- Whatever the bytes are, what is sent for them is a reply, and arrives whole. -/
theorem bytes_answered (time : Timestamp) (content options : Bytes) :
    (∃ t, IsReply t ∧ Delivers (parseBytes content) t) ∧
      ∃ t, IsReply t ∧ Delivers (buildBytes time content options) t := by
  have hsent {t : Text} (h : IsReply t) : ∃ t', IsReply t' ∧ Delivers (send t) t' :=
    ⟨t, h, h.delivers_send⟩
  unfold parseBytes buildBytes
  cases zeroEnded? content with
  | none => exact ⟨hsent (isReply_notText _), hsent (isReply_notText _)⟩
  | some t =>
      refine ⟨hsent (isReply_parseText t), ?_⟩
      cases zeroEnded? options with
      | none => exact hsent (isReply_notText _)
      | some o => exact hsent (isReply_buildText time t o)

/-- Every reply to a text is an object of JSON with no character below the space, and so is every
failure, whatever it says. A receiver that stops at a zero gets that text, whole, for the same input
as bytes; a script in it differs between two requests in the time it says at most. -/
theorem replies_arrive (content options : Text) :
    IsReply (parseText content) ∧
      (∀ time, IsReply (buildText time content options)) ∧
      (∀ message kind, IsReply (Reply.failure message kind).text ∧
        Delivers (send (Reply.failure message kind).text) (Reply.failure message kind).text) ∧
      (∀ memory, Holds memory content →
        Delivers (parseBytes memory) (parseText content) ∧
          ∀ memory', Holds memory' options → ∀ time,
            Delivers (buildBytes time memory memory') (buildText time content options)) ∧
      SaysTime fun time => buildText time content options := by
  refine ⟨isReply_parseText content, fun time => isReply_buildText time content options,
    fun message kind => ⟨isReply_failure message kind, (isReply_failure message kind).delivers_send⟩,
    fun memory hcontent => ⟨?_, fun memory' hoptions time => ?_⟩, saysTime_buildText content options⟩
  · have hsent : parseBytes memory = send (parseText content) := by
      rw [parseBytes, hcontent.zeroEnded?]
    rw [hsent]
    exact (isReply_parseText content).delivers_send
  · have hsent : buildBytes time memory memory' = send (buildText time content options) := by
      rw [buildBytes, hcontent.zeroEnded?]
      simp only [hoptions.zeroEnded?]
    rw [hsent]
    exact (isReply_buildText time content options).delivers_send

/-- A document whose database has a zero in its name. -/
def zeroNamed : Text := "database:\n  name: \"a\\0b\"\n"

theorem replies_arrive_zeroNamed :
    (Holds (Utf8.encode zeroNamed ++ [0]) zeroNamed ∧ Holds [0] []) ∧
      parseText zeroNamed =
        "\x7b\"success\":true,\"data\":\x7b\"database\":\x7b\"name\":\"a\\u0000b\",".toList
          ++ "\"source\":\"MySQL\",\"charset\":\"utf8\",".toList
          ++ "\"collate\":\"utf8_general_ci\"\x7d,\"tables\":[]\x7d\x7d".toList ∧
      Delivers (parseBytes (Utf8.encode zeroNamed ++ [0])) (parseText zeroNamed) ∧
        Delivers (buildBytes (.ofSeconds 0) (Utf8.encode zeroNamed ++ [0]) [0])
          (buildText (.ofSeconds 0) zeroNamed []) := by
  have hcontent : Holds (Utf8.encode zeroNamed ++ [0]) zeroNamed := holds_encode (by decide) []
  have hoptions : Holds [0] [] := holds_encode List.not_mem_nil []
  obtain ⟨_, _, _, hdelivered, _⟩ := replies_arrive zeroNamed []
  obtain ⟨hparse, hbuild⟩ := hdelivered _ hcontent
  exact ⟨⟨hcontent, hoptions⟩, by decide +kernel, hparse, hbuild _ hoptions _⟩

end SchemaScript.Exchange
