import Zooffice.Infra.Model.Download
/-!
# A download ends as it should

Whatever step fails, the body of the method throws an exception that is
caught, and the block behind it closes what has been opened. That block
begins with a cast and a call on the connection, so it gets to the streams
exactly when there is a connection, and it is one of HTTP.
-/


namespace Zooffice

namespace NetworkUtil

variable {call : DownloadCall} {s : Download}

/-- No stream that was opened is open. -/
def StreamsClosed (s : Download) : Prop := s.os ≠ some .opened ∧ s.input ≠ some .opened

/-- The file has the whole response. -/
def HasResponse (call : DownloadCall) (s : Download) : Prop :=
  ∃ response, call.inputStream = .ok response ∧ response.failure = none ∧
    s.file = some response.bytes

/-- The call returns with the whole response in the file, or throws a
`ZoofficeRuntimeException`, and the streams are closed. -/
def EndsWell (call : DownloadCall) (file : Option Content) : Prop :=
  let ended := (downloadFile call).run (Download.start file)
  (ended.1 = .ok ⟨⟩ ∧ HasResponse call ended.2 ∨
    ∃ message, ended.1 = .error ⟨.zoofficeRuntime, message⟩) ∧ StreamsClosed ended.2

/-! ## The loop -/

/-- What a part of the body has done: it returned, or it threw an
exception; and the connection is as it was. -/
structure Ran (s : Download) (ran : Except Throwable PUnit × Download) : Prop where
  connection : ran.2.connection = s.connection
  isException : ∀ e, ran.1 = .error e → e.isException = true

theorem run_writeChunk (k : ℕ) (chunk : Chunk) (s : Download) :
    Ran s ((writeChunk call k chunk).run s) ∧
      (((writeChunk call k chunk).run s).1 = .ok ⟨⟩ → ((writeChunk call k chunk).run s).2.file =
        s.file.map fun content => content ++ chunk.bytes) := by
  unfold writeChunk
  split
  · exact ⟨⟨rfl, fun e h => by cases h⟩, fun _ => rfl⟩
  · next failure written _ =>
      refine ⟨⟨rfl, fun e h => ?_⟩, fun h => by cases h⟩
      rw [← Except.error.inj h]
      exact failure.isException

/-- **The loop copies all chunks** unless a read or a write fails. -/
theorem run_copyLoop (failure : Option Failure) (chunks : List Chunk) (k : ℕ) (s : Download) :
    Ran s ((copyLoop call failure k chunks).run s) ∧
      (((copyLoop call failure k chunks).run s).1 = .ok ⟨⟩ → failure = none ∧
        ((copyLoop call failure k chunks).run s).2.file =
          s.file.map fun content => content ++ chunks.flatMap Chunk.bytes) := by
  induction chunks generalizing k s with
  | nil =>
      cases failure with
      | none =>
          rw [copyLoop]
          refine ⟨⟨rfl, fun e h => by cases h⟩, fun _ => ⟨rfl, ?_⟩⟩
          simp
      | some failure =>
          rw [copyLoop]
          refine ⟨⟨rfl, fun e h => ?_⟩, fun h => by cases h⟩
          rw [← Except.error.inj h]
          exact failure.isException
  | cons chunk chunks ih =>
      obtain ⟨hran, hfile⟩ : Ran s ((writeChunk call k chunk).run s) ∧ _ :=
        run_writeChunk k chunk s
      rw [copyLoop, Eff.run_bind]
      rcases hwrite : (writeChunk call k chunk).run s with ⟨e | _, s'⟩
      · rw [hwrite] at hran
        exact ⟨⟨hran.connection, fun e' h => hran.isException e' h⟩, fun h => by cases h⟩
      · rw [hwrite] at hran hfile
        obtain ⟨hrest, hrestFile⟩ := ih (k + 1) s'
        refine ⟨⟨hrest.connection.trans hran.connection, hrest.isException⟩, fun h => ?_⟩
        obtain ⟨hnone, hcontent⟩ := hrestFile h
        refine ⟨hnone, hcontent.trans ?_⟩
        rw [show s'.file = _ from hfile rfl, Option.map_map, List.flatMap_cons]
        refine congrArg (fun f => Option.map f s.file) (funext fun content => ?_)
        exact List.append_assoc content _ _

/-! ## The body -/

/-- The text names a connection, of whatever kind. -/
def Connects (call : DownloadCall) (connection : URLConnection) : Prop :=
  call.url = .ok ⟨⟩ ∧ call.openConnection = .ok connection

/-- Without a connection the body throws before it has done anything. -/
theorem run_openStreams_of_not_connects (h : ∀ connection, ¬ Connects call connection)
    (s : Download) : ∃ e, (openStreams call).run s = (.error e, s) := by
  unfold openStreams attempt
  cases hurl : call.url with
  | error failure => exact ⟨failure.throwable, rfl⟩
  | ok u =>
      cases hopen : call.openConnection with
      | error failure => exact ⟨failure.throwable, rfl⟩
      | ok connection => exact absurd ⟨hurl, hopen⟩ (h connection)

/-- What a step leaves behind when it throws one of its failures. -/
theorem isException_of_eq {failure : Failure} {e : Throwable}
    (h : (Except.error failure.throwable : Except Throwable Response) = .error e) :
    e.isException = true := by
  rw [← Except.error.inj h]
  exact failure.isException

/-- **With a connection** the steps before the loop leave it in its
variable, and when all of them are done the file is empty. -/
theorem run_openStreams_of_connects {connection : URLConnection} (h : Connects call connection)
    (s : Download) :
    ((openStreams call).run s).2.connection = some connection ∧
      (∀ e, ((openStreams call).run s).1 = .error e → e.isException = true) ∧
      ∀ response, ((openStreams call).run s).1 = .ok response →
        call.inputStream = .ok response ∧ ((openStreams call).run s).2.file = some [] := by
  obtain ⟨hurl, hopen⟩ := h
  unfold openStreams attempt
  rw [hurl, hopen]
  cases call.connect with
  | error failure => exact ⟨rfl, fun e he => isException_of_eq he, fun r hr => by cases hr⟩
  | ok u =>
      cases call.createFile with
      | error failure => exact ⟨rfl, fun e he => isException_of_eq he, fun r hr => by cases hr⟩
      | ok u =>
          cases call.inputStream with
          | error failure =>
              exact ⟨rfl, fun e he => isException_of_eq he, fun r hr => by cases hr⟩
          | ok response =>
              refine ⟨rfl, fun e he => (by cases he), fun r hr => ⟨?_, rfl⟩⟩
              exact congrArg Except.ok (Except.ok.inj hr)

theorem run_transfer_of_connects {connection : URLConnection} (h : Connects call connection)
    (s : Download) :
    ((transfer call).run s).2.connection = some connection ∧
      (∀ e, ((transfer call).run s).1 = .error e → e.isException = true) ∧
      (((transfer call).run s).1 = .ok ⟨⟩ → HasResponse call ((transfer call).run s).2) := by
  obtain ⟨hconnection, hexception, hopened⟩ := run_openStreams_of_connects h s
  rw [transfer, Eff.run_bind]
  rcases hrun : (openStreams call).run s with ⟨e | response, s'⟩
  · rw [hrun] at hconnection hexception
    exact ⟨hconnection, fun e' he => hexception e' (congrArg _ (Except.error.inj he)),
      fun h => by cases h⟩
  · rw [hrun] at hconnection hopened
    obtain ⟨hinput, hempty⟩ := hopened response rfl
    obtain ⟨hran, hfile⟩ : Ran s' ((copyLoop call response.failure 0 response.chunks).run s') ∧ _ :=
      run_copyLoop response.failure response.chunks 0 s'
    refine ⟨hran.connection.trans hconnection, hran.isException, fun hok => ?_⟩
    obtain ⟨hnone, hcontent⟩ := hfile hok
    exact ⟨response, hinput, hnone, hcontent.trans (by rw [hempty]; rfl)⟩

/-! ## The whole method -/

/-- `catch (Exception e)`. -/
theorem run_handled {s : Download}
    (h : ∀ e, ((transfer call).run s).1 = .error e → e.isException = true) :
    ((handled call).run s).1 = .ok ⟨⟩ ∧ ((transfer call).run s).1 = .ok ⟨⟩ ∨
      ∃ message, ((handled call).run s).1 = .error ⟨.zoofficeRuntime, message⟩ := by
  rw [handled, Eff.run_tryCatch]
  rcases hrun : (transfer call).run s with ⟨e | u, s'⟩
  · rw [hrun] at h
    refine Or.inr ⟨some ("Error while download " ++ call.urlString), ?_⟩
    dsimp only
    rw [if_pos (h e rfl)]
    rfl
  · exact Or.inl ⟨rfl, rfl⟩

/-- A handler that throws leaves the state to the block behind it. -/
theorem snd_run_handled (call : DownloadCall) (s : Download) :
    ((handled call).run s).2 = ((transfer call).run s).2 :=
  Eff.snd_run_tryCatch_throw _ _ s

/-- The block behind gets to the streams for a connection of HTTP. -/
theorem run_cleanUp_of_isHttp {connection : URLConnection}
    (h : s.connection = some connection) (hhttp : connection.isHttp = true) :
    cleanUp.run s = (.ok ⟨⟩, { s with
      disconnected := true, os := closeQuietly s.os, input := closeQuietly s.input }) := by
  obtain ⟨os, input, found, disconnected, file⟩ := s
  obtain rfl : found = some connection := h
  rw [cleanUp, Eff.run_get_bind]
  dsimp only
  rw [if_neg (by rw [hhttp]; decide)]
  rfl

/-- And throws before it does for any other one, or none. -/
theorem run_cleanUp_of_not_isHttp
    (h : ∀ connection, s.connection = some connection → connection.isHttp = false) :
    ∃ e, cleanUp.run s = (.error e, s) ∧ e.cls ≠ .zoofficeRuntime := by
  rw [cleanUp, Eff.run_get_bind]
  cases hconnection : s.connection with
  | none => exact ⟨_, rfl, by decide⟩
  | some connection =>
      dsimp only
      rw [if_pos (h connection hconnection)]
      exact ⟨_, rfl, by decide⟩

theorem closeQuietly_ne_opened (stream : Option StreamState) :
    closeQuietly stream ≠ some .opened := by
  cases stream <;> simp [closeQuietly]

theorem not_endsWell_of_not_isHttp {file : Option Content}
    (h : ∀ connection, ((transfer call).run (.start file)).2.connection = some connection →
      connection.isHttp = false) : ¬ EndsWell call file := by
  rw [← snd_run_handled] at h
  obtain ⟨e, hrun, hclass⟩ := run_cleanUp_of_not_isHttp h
  rintro ⟨hends, -⟩
  rw [downloadFile, Eff.run_finallyRun_of_error hrun] at hends
  rcases hends with ⟨hok, -⟩ | ⟨message, herror⟩
  · cases hok
  · rw [Except.error.inj herror] at hclass
    exact hclass rfl

/-- **A download ends well**, whatever else fails on the way, exactly when
there is a connection and it is one of HTTP. -/
theorem endsWell_iff (call : DownloadCall) (file : Option Content) :
    EndsWell call file ↔ ∃ connection, call.url = .ok ⟨⟩ ∧ call.openConnection = .ok connection ∧
      connection.isHttp = true := by
  by_cases hconnects : ∃ connection, Connects call connection
  · obtain ⟨connection, hconnects⟩ := hconnects
    obtain ⟨hconnection, hexception, hresponse⟩ := run_transfer_of_connects hconnects (.start file)
    cases hhttp : connection.isHttp with
    | false =>
        refine iff_of_false (not_endsWell_of_not_isHttp fun c hc => ?_) ?_
        · rw [hconnection, Option.some_inj] at hc
          rw [← hc, hhttp]
        · rintro ⟨c, -, hopen, hc⟩
          rw [hconnects.2, Except.ok.injEq] at hopen
          rw [← hopen, hhttp] at hc
          cases hc
    | true =>
        refine iff_of_true ?_ ⟨connection, hconnects.1, hconnects.2, hhttp⟩
        have hlast := run_cleanUp_of_isHttp ((snd_run_handled call _).symm ▸ hconnection) hhttp
        rw [EndsWell, downloadFile, Eff.run_finallyRun_of_ok hlast]
        refine ⟨?_, closeQuietly_ne_opened _, closeQuietly_ne_opened _⟩
        rcases run_handled hexception with ⟨hok, htransfer⟩ | hthrown
        · left
          obtain ⟨response, hinput, hnone, hfile⟩ := hresponse htransfer
          exact ⟨hok, response, hinput, hnone,
            (congrArg Download.file (snd_run_handled call _)).trans hfile⟩
        · exact Or.inr hthrown
  · -- without a connection the body has thrown before it assigned one
    obtain ⟨e, hrun⟩ :=
      run_openStreams_of_not_connects (fun c hc => hconnects ⟨c, hc⟩) (.start file)
    refine iff_of_false (not_endsWell_of_not_isHttp fun c hc => ?_) ?_
    · rw [transfer, Eff.run_bind_of_error hrun] at hc
      cases hc
    · rintro ⟨c, hurl, hopen, -⟩
      exact hconnects ⟨c, hurl, hopen⟩

/-- A call with a text that is no URL. -/
def malformedCall : DownloadCall where
  urlString := "zooffice"
  url := .error ⟨⟨.other "MalformedURLException", some "no protocol: zooffice"⟩, rfl⟩
  openConnection := .ok ⟨true⟩
  connect := .ok ⟨⟩
  createFile := .ok ⟨⟩
  inputStream := .ok ⟨[], none⟩
  write := fun _ => none

/-- **A text that is no URL** ends in a `NullPointerException`. -/
theorem not_endsWell_malformedCall : ¬ EndsWell malformedCall none := by
  rintro ⟨⟨hok, -⟩ | ⟨message, herror⟩, -⟩
  · cases hok
  · cases herror

end NetworkUtil

end Zooffice
