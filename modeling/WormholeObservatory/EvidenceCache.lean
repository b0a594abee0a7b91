import WormholeObservatory.Redaction
import WormholeObservatory.Revalidation
import WormholeObservatory.Runs

/-! The evidence cache of `research_common`: a file with the payload of a source and a file with what
its server said of it. The payload is written first, so a process that stops between the two leaves a
payload with the metadata of the one before. -/
namespace WormholeObservatory
namespace EvidenceCache

open Redaction
open Revalidation
open Transition

abbrev Bytes := List UInt8

/-- What is read of the metadata file. -/
structure Metadata where
  fetchedAt : ℚ
  etag : String
  lastModified : String
  deriving DecidableEq

/-- The two files of a cache id. -/
structure Entry where
  payload : Option Bytes
  metadata : Option Metadata
  deriving DecidableEq

/-- The conditional headers of a request. -/
structure Headers where
  ifNoneMatch : Option String
  ifModifiedSince : Option String
  deriving DecidableEq

structure Response where
  status : ℕ
  content : Bytes
  etag : String
  lastModified : String

/-- A call of `fetch_cached_bytes`: the settings of its provider, the clock at the check, at the server
and when the metadata is written, the answer of the server unless `requests` raises, and whether the
metadata can be written. -/
structure Fetch where
  apiKey : String
  refreshIntervalHours : ℤ
  checkedAt : ℚ
  servedAt : ℚ
  recordedAt : ℚ
  response : Headers → Option Response
  interrupted : Bool

def Fetch.maxAge (fetch : Fetch) : ℚ := fetch.refreshIntervalHours*3600

def optionalHeader (value : String) : Option String := if value ≠ "" then some value else none

section Fetching

variable [SetOrder]

/-- `_redact_metadata` on what is read of it. -/
def Metadata.redact (apiKey : String) (metadata : Metadata) : Metadata :=
  { metadata with
    etag := redactSecretText metadata.etag apiKey
    lastModified := redactSecretText metadata.lastModified apiKey }

/-- `_scrub_cached_metadata_secret` on one entry. -/
def Entry.scrub (apiKey : String) (entry : Entry) : Entry :=
  { entry with metadata := entry.metadata.map (Metadata.redact apiKey) }

/-- The request of `fetch_cached_bytes`, and what is written of the answer. -/
def Fetch.revalidate (fetch : Fetch) (metadata : Metadata) (entry : Entry) : Option Bytes × Entry :=
  match fetch.response ⟨optionalHeader metadata.etag,optionalHeader metadata.lastModified⟩ with
  | none => (none,entry)
  | some response =>
    if response.status = 304 ∧ entry.payload.isSome = true then
      if fetch.interrupted then (none,entry)
      else (entry.payload,{ entry with metadata := some { metadata with fetchedAt := fetch.recordedAt } })
    else if 400 ≤ response.status ∧ response.status < 600 then (none,entry)
    else if fetch.interrupted then (none,{ entry with payload := some response.content })
    else (some response.content,⟨some response.content,
      some ⟨fetch.recordedAt,response.etag,response.lastModified⟩⟩)

/-- Whether a payload is returned as it is. -/
def Fetch.young (fetch : Fetch) (metadata : Metadata) : Bool :=
  decide (fetch.checkedAt-metadata.fetchedAt < fetch.maxAge)

/-- `fetch_cached_bytes`: what it returns, unless it raises, and the files it leaves. -/
def fetchCachedBytes (fetch : Fetch) (entry : Entry) : Option Bytes × Entry :=
  let entry := entry.scrub fetch.apiKey
  let metadata := (entry.metadata.getD ⟨0,"",""⟩).redact fetch.apiKey
  if entry.payload.isSome && fetch.young metadata then (entry.payload,entry)
  else fetch.revalidate metadata entry

end Fetching

/-! The source. -/

/-- What a server shows: its payload, and the two validators that go with it. -/
abbrev Server := Source Bytes (String × String)

/-- The server answers as HTTP has it: 304 only where the validators of the request stand for what it
shows, otherwise what it shows with its validators, or an error. -/
structure Honest (server : Server) (fetch : Fetch) : Prop where
  notModified : ∀ etag lastModified response,
    fetch.response ⟨optionalHeader etag,optionalHeader lastModified⟩ = some response →
    response.status = 304 → server.stands (etag,lastModified) fetch.servedAt
  full : ∀ headers response, fetch.response headers = some response → response.status ≠ 304 →
    ¬(400 ≤ response.status ∧ response.status < 600) →
    response.content = server.content fetch.servedAt ∧
      (response.etag,response.lastModified) = server.validator fetch.servedAt

/-- A request without validators is never answered with 304. -/
def Unconditional (server : Server) : Prop := ∀ q, ¬ server.stands ("","") q

/-- One fetch after another, each with the clock going forward, an answer that takes `lag` at most,
a key that is no part of a validator, and an interval as the configuration has it. -/
structure Orderly [SetOrder] (server : Server) (lag now : ℚ) (fetch : Fetch) : Prop where
  checked : now ≤ fetch.checkedAt
  served : fetch.checkedAt ≤ fetch.servedAt
  recorded : fetch.servedAt ≤ fetch.recordedAt
  prompt : fetch.recordedAt ≤ fetch.servedAt+lag
  honest : Honest server fetch
  clean : ∀ q, redactSecretText (server.validator q).1 fetch.apiKey = (server.validator q).1 ∧
    redactSecretText (server.validator q).2 fetch.apiKey = (server.validator q).2
  interval : 0 < fetch.refreshIntervalHours

/-- The files, and the time of the last fetch. -/
structure Cache where
  entry : Entry
  clock : ℚ

def Cache.fetched [SetOrder] (cache : Cache) (fetch : Fetch) : Cache :=
  ⟨(fetchCachedBytes fetch cache.entry).2,fetch.recordedAt⟩

def step [SetOrder] (server : Server) (lag : ℚ) (cache : Cache) (fetch : Fetch) (cache' : Cache) : Prop :=
  Orderly server lag cache.clock fetch ∧ cache' = cache.fetched fetch

/-- What the files are: nothing, a payload that was once shown, or a copy. With `whole`, the validator
of a copy was given with its content. -/
inductive Kept (server : Server) (lag now : ℚ) (whole : Prop) : Entry → Prop
  | empty : Kept server lag now whole ⟨none,none⟩
  | bare {c p} : ¬whole → c = server.content p → 0 ≤ p → p ≤ now → Kept server lag now whole ⟨some c,none⟩
  | copy {c m e p} : Copy server lag now c (m.etag,m.lastModified) m.fetchedAt e p →
      (whole → c = server.content e) → Kept server lag now whole ⟨some c,some m⟩

section Runs

variable [SetOrder] {server : Server} {lag now : ℚ} {whole : Prop} {entry : Entry} {fetch : Fetch}

theorem Metadata.redact_clean {m : Metadata} {e : ℚ} (hclean : ∀ q,
    redactSecretText (server.validator q).1 fetch.apiKey = (server.validator q).1 ∧
      redactSecretText (server.validator q).2 fetch.apiKey = (server.validator q).2)
    (hm : (m.etag,m.lastModified) = server.validator e) : m.redact fetch.apiKey = m := by
  obtain ⟨hetag,hmodified⟩ := hclean e
  rw [← hm] at hetag hmodified
  rw [Metadata.redact,hetag,hmodified]

theorem redact_empty (apiKey : String) : redactSecretText "" apiKey = "" := by
  have hmask : ∀ forms : List String, forms.foldl (fun redacted variant =>
      if variant = "" then redacted else mask redacted variant) "" = "" := by
    intro forms
    induction forms with
    | nil => rfl
    | cons form forms ih =>
      have hform : (if form = "" then "" else mask "" form) = "" := by
        split
        · rfl
        · simp [mask,Substrings.replace,Substrings.replaceFrom]
      rw [List.foldl_cons,hform,ih]
  rw [redactSecretText]
  split
  · rfl
  · exact hmask _

/-- A key that is no part of a validator changes nothing of what is kept. -/
theorem Kept.scrub (h : Kept server lag now whole entry) (hfetch : Orderly server lag now fetch) :
    entry.scrub fetch.apiKey = entry := by
  cases h with
  | empty => rfl
  | bare => rfl
  | copy hcopy hgiven =>
    rw [Entry.scrub,Option.map_some,Metadata.redact_clean hfetch.clean hcopy.validator]

omit [SetOrder] in
theorem Kept.later (h : Kept server lag now whole entry) {now' : ℚ} (hnow : now ≤ now') :
    Kept server lag now' whole entry := by
  cases h with
  | empty => exact .empty
  | bare hwhole hc hp hpast => exact .bare hwhole hc hp (hpast.trans hnow)
  | copy hcopy hgiven => exact .copy (hcopy.later hnow) hgiven

/-- What a fetch leaves and returns: files that are kept, and a payload that the server has shown. -/
structure Good (server : Server) (lag : ℚ) (whole : Prop) (fetch : Fetch)
    (result : Option Bytes × Entry) : Prop where
  kept : Kept server lag fetch.recordedAt whole result.2
  shown : ∀ c, result.1 = some c →
    server.Shown (fetch.checkedAt-(fetch.maxAge+lag)) fetch.recordedAt c

theorem Orderly.past (h : Orderly server lag now fetch) : now ≤ fetch.recordedAt :=
  h.checked.trans (h.served.trans h.recorded)

theorem Orderly.maxAge_pos (h : Orderly server lag now fetch) : 0 < fetch.maxAge := by
  have hinterval : (0 : ℚ) < fetch.refreshIntervalHours := by exact_mod_cast h.interval
  rw [Fetch.maxAge]
  linarith

/-- What the server shows while it answers is not old. -/
theorem Orderly.shown_served (h : Orderly server lag now fetch) (hlag : 0 ≤ lag) :
    server.Shown (fetch.checkedAt-(fetch.maxAge+lag)) fetch.recordedAt
      (server.content fetch.servedAt) := by
  have hage := h.maxAge_pos
  have hserved := h.served
  have hsince : fetch.checkedAt-(fetch.maxAge+lag) < fetch.servedAt := by linarith
  exact ⟨fetch.servedAt,hsince,h.recorded,rfl⟩

/-- What a fetch that raises leaves as it was is good. -/
theorem Good.raised (h : Kept server lag now whole entry) (hfetch : Orderly server lag now fetch) :
    Good server lag whole fetch (none,entry) :=
  ⟨h.later hfetch.past,fun _ hc => by cases hc⟩

/-- The metadata that a request is made with. -/
def effective (entry : Entry) : Metadata := entry.metadata.getD ⟨0,"",""⟩

/-- A 304 finds a copy, and the copy is what the server shows. -/
theorem Kept.notModified (h : Kept server lag now whole entry) (hfetch : Orderly server lag now fetch)
    (hcond : Unconditional server) (hsure : server.Lasting ∨ server.Strong ∧ whole)
    (hstands : server.stands ((effective entry).etag,(effective entry).lastModified) fetch.servedAt) :
    ∃ m e p, entry = ⟨some (server.content fetch.servedAt),some m⟩ ∧
      Copy server lag now (server.content fetch.servedAt) (m.etag,m.lastModified) m.fetchedAt e p ∧
      (whole → server.content fetch.servedAt = server.content e) := by
  have hnow := hfetch.checked.trans hfetch.served
  cases h with
  | empty => exact absurd hstands (hcond _)
  | bare => exact absurd hstands (hcond _)
  | @copy c m e p hcopy hgiven =>
    have hsame : c = server.content fetch.servedAt := by
      refine hcopy.confirmed ?_ hnow hstands
      rcases hsure with hlasting | ⟨hstrong,hwhole⟩
      · exact .inl hlasting
      · exact .inr ⟨hstrong,hgiven hwhole⟩
    subst hsame
    exact ⟨m,e,p,rfl,hcopy,hgiven⟩

theorem revalidate_good (h : Kept server lag now whole entry) (hfetch : Orderly server lag now fetch)
    (hlag : 0 ≤ lag) (hstart : 0 ≤ now) (hcond : Unconditional server)
    (hsure : server.Lasting ∨ server.Strong ∧ whole) (hwrites : whole → fetch.interrupted = false) :
    Good server lag whole fetch (fetch.revalidate (effective entry) entry) := by
  have hnow : now ≤ fetch.servedAt := hfetch.checked.trans hfetch.served
  rw [Fetch.revalidate]
  cases hresponse : fetch.response ⟨optionalHeader (effective entry).etag,
      optionalHeader (effective entry).lastModified⟩ with
  | none => exact Good.raised h hfetch
  | some response =>
    dsimp only
    by_cases hstatus : response.status = 304
    · obtain ⟨m,e,p,rfl,hcopy,hgiven⟩ := h.notModified hfetch hcond hsure
        (hfetch.honest.notModified _ _ _ hresponse hstatus)
      rw [if_pos ⟨hstatus,rfl⟩]
      split
      · exact Good.raised h hfetch
      · refine ⟨.copy (hcopy.redated rfl hnow hfetch.prompt hfetch.recorded) hgiven,?_⟩
        intro c hc
        obtain rfl := Option.some.inj hc
        exact hfetch.shown_served hlag
    · rw [if_neg fun hboth => hstatus hboth.1]
      split
      · exact Good.raised h hfetch
      · rename_i herror
        obtain ⟨hcontent,hvalidator⟩ := hfetch.honest.full _ _ hresponse hstatus herror
        rw [hcontent]
        split
        · rename_i hinterrupted
          have hpart : ¬whole := fun hw => by simp [hwrites hw] at hinterrupted
          refine ⟨?_,fun _ hc => by cases hc⟩
          cases h with
          | empty => exact .bare hpart rfl (hstart.trans hnow) hfetch.recorded
          | bare => exact .bare hpart rfl (hstart.trans hnow) hfetch.recorded
          | copy hcopy hgiven =>
            exact .copy ((hcopy.replaced hnow).later hfetch.recorded) fun hw => absurd hw hpart
        · refine ⟨.copy (e := fetch.servedAt) (p := fetch.servedAt) ?_ fun _ => rfl,?_⟩
          · rw [hvalidator]
            exact Copy.taken hfetch.prompt hfetch.recorded
          · intro c hc
            obtain rfl := Option.some.inj hc
            exact hfetch.shown_served hlag

/-- One fetch keeps the files, and what it returns was shown not long ago. -/
theorem fetchCachedBytes_good (h : Kept server lag now whole entry)
    (hfetch : Orderly server lag now fetch) (hlag : 0 ≤ lag) (hstart : 0 ≤ now)
    (hcond : Unconditional server) (hsure : server.Lasting ∨ server.Strong ∧ whole)
    (hwrites : whole → fetch.interrupted = false) :
    Good server lag whole fetch (fetchCachedBytes fetch entry) := by
  have hmetadata : (entry.metadata.getD ⟨0,"",""⟩).redact fetch.apiKey = effective entry := by
    cases h with
    | empty => simp [effective,Metadata.redact,redact_empty]
    | bare => simp [effective,Metadata.redact,redact_empty]
    | copy hcopy hgiven => exact Metadata.redact_clean hfetch.clean hcopy.validator
  simp only [fetchCachedBytes,h.scrub hfetch,hmetadata]
  split
  · rename_i hyoung
    refine ⟨h.later hfetch.past,fun c hc => ?_⟩
    simp only [Bool.and_eq_true,Fetch.young,decide_eq_true_eq] at hyoung
    cases h with
    | empty => cases hc
    | @bare c' p hpart hcontent hp hpast =>
      obtain rfl := Option.some.inj hc
      have hage : fetch.checkedAt-0 < fetch.maxAge := hyoung.2
      have hsince : fetch.checkedAt-(fetch.maxAge+lag) < p := by linarith
      exact ⟨p,hsince,hpast.trans hfetch.past,hcontent⟩
    | copy hcopy hgiven =>
      obtain rfl := Option.some.inj hc
      exact (hcopy.later hfetch.past).shown hyoung.2
  · exact revalidate_good h hfetch hlag hstart hcond hsure hwrites

omit [SetOrder] in
theorem Kept.payload (h : Kept server lag now whole entry) :
    (∀ c, entry.payload = some c → ∃ p, p ≤ now ∧ c = server.content p) ∧
      (entry.metadata.isSome = true → entry.payload.isSome = true) := by
  cases h with
  | empty => exact ⟨(fun _ hc => nomatch hc),fun hm => nomatch hm⟩
  | bare hpart hcontent hp hpast =>
    exact ⟨fun c hc => ⟨_,hpast,(Option.some.inj hc).symm.trans hcontent⟩,fun _ => rfl⟩
  | copy hcopy hgiven =>
    exact ⟨fun c hc => ⟨_,hcopy.past,(Option.some.inj hc).symm.trans hcopy.content⟩,fun _ => rfl⟩

omit [SetOrder] in
theorem revalidate_interrupted (h : fetch.interrupted = true) (m : Metadata) (entry : Entry) :
    (fetch.revalidate m entry).1 = none := by
  rw [Fetch.revalidate]
  cases fetch.response ⟨optionalHeader m.etag,optionalHeader m.lastModified⟩ with
  | none => rfl
  | some response =>
    dsimp only
    rw [if_pos h,if_pos h]
    split
    · rfl
    · split <;> rfl

/-- A fetch that is interrupted returns nothing that it would not have returned otherwise. -/
theorem fetchCachedBytes_uninterrupted {c : Bytes}
    (h : (fetchCachedBytes fetch entry).1 = some c) :
    (fetchCachedBytes { fetch with interrupted := false } entry).1 = some c := by
  cases hinterrupted : fetch.interrupted with
  | false =>
    have hsame : { fetch with interrupted := false } = fetch := by rw [← hinterrupted]
    rwa [hsame]
  | true =>
    simp only [fetchCachedBytes] at h ⊢
    cases hyoung : (entry.scrub fetch.apiKey).payload.isSome &&
        fetch.young (((entry.scrub fetch.apiKey).metadata.getD ⟨0,"",""⟩).redact fetch.apiKey) with
    | true =>
      rw [if_pos hyoung] at h
      exact (congrArg Prod.fst (if_pos hyoung)).trans h
    | false =>
      rw [hyoung,if_neg (by decide),revalidate_interrupted hinterrupted] at h
      cases h

theorem kept_of_run {fetches : List Fetch} {start : ℚ} {cache : Cache} (hlag : 0 ≤ lag)
    (hstart : 0 ≤ start) (hcond : Unconditional server) (hsure : server.Lasting ∨ server.Strong ∧ whole)
    (hwrites : ∀ fetch ∈ fetches, whole → fetch.interrupted = false)
    (hrun : Run (step server lag) ⟨⟨none,none⟩,start⟩ fetches cache) :
    Kept server lag cache.clock whole cache.entry ∧ 0 ≤ cache.clock := by
  revert hwrites
  refine hrun.history (fun done cache => (∀ fetch ∈ done, whole → fetch.interrupted = false) →
    Kept server lag cache.clock whole cache.entry ∧ 0 ≤ cache.clock) (fun _ => ⟨.empty,hstart⟩) ?_
  rintro done cache fetch cache' ih ⟨hfetch,rfl⟩ hwrites
  obtain ⟨hkept,hclock⟩ := ih fun f hf => hwrites f (List.mem_append_left _ hf)
  have hgood := fetchCachedBytes_good hkept hfetch hlag hclock hcond hsure (hwrites fetch (by simp))
  exact ⟨hgood.kept,hclock.trans hfetch.past⟩

/-- In every run of fetches, the payload on disk is one that the server has shown, there is no metadata
without it, and what a fetch returns was shown less than its interval and the time of one answer ago:
if the server gives no validator twice, whatever interrupts the process between its two files; if it
gives a validator again only with what it gave it with, as long as nothing does. -/
theorem cached_bytes_shown {fetches : List Fetch} {start : ℚ} {cache : Cache}
    (hlag : 0 ≤ lag) (hstart : 0 ≤ start) (hcond : Unconditional server)
    (hsure : server.Lasting ∨ server.Strong ∧ ∀ fetch ∈ fetches, fetch.interrupted = false)
    (hrun : Run (step server lag) ⟨⟨none,none⟩,start⟩ fetches cache) :
    (∀ c, cache.entry.payload = some c → ∃ p, p ≤ cache.clock ∧ c = server.content p) ∧
      (cache.entry.metadata.isSome = true → cache.entry.payload.isSome = true) ∧
      ∀ fetch, Orderly server lag cache.clock fetch → ∀ c,
        (fetchCachedBytes fetch cache.entry).1 = some c →
          server.Shown (fetch.checkedAt-(fetch.maxAge+lag)) fetch.recordedAt c := by
  have hmode : (server.Lasting ∨ server.Strong ∧ ¬server.Lasting) ∧
      ∀ fetch ∈ fetches, ¬server.Lasting → fetch.interrupted = false := by
    by_cases hlasting : server.Lasting
    · exact ⟨.inl hlasting,fun _ _ h => absurd hlasting h⟩
    · obtain ⟨hstrong,hwhole⟩ := hsure.resolve_left hlasting
      exact ⟨.inr ⟨hstrong,hlasting⟩,fun fetch hfetch _ => hwhole fetch hfetch⟩
  obtain ⟨hkept,hclock⟩ := kept_of_run hlag hstart hcond hmode.1 hmode.2 hrun
  refine ⟨hkept.payload.1,hkept.payload.2,fun fetch hfetch c hc => ?_⟩
  have hfetch' : Orderly server lag cache.clock { fetch with interrupted := false } :=
    ⟨hfetch.checked,hfetch.served,hfetch.recorded,hfetch.prompt,
      ⟨hfetch.honest.notModified,hfetch.honest.full⟩,hfetch.clean,hfetch.interval⟩
  exact (fetchCachedBytes_good hkept hfetch' hlag hclock hcond hmode.1 fun _ => rfl).shown c
    (fetchCachedBytes_uninterrupted hc)

end Runs

/-! What an interruption costs where a server goes back to what it showed before. -/

/-- A server that lets only the validators stand that it gives. -/
def plainServer (content : ℚ → Bytes) (etag : ℚ → String) : Server where
  content := content
  validator q := (etag q,"")
  stands v q := v = (etag q,"")

/-- An answer of a plain server. -/
def plainResponse (server : Server) (q : ℚ) (headers : Headers) : Response :=
  if headers = ⟨optionalHeader (server.validator q).1,optionalHeader (server.validator q).2⟩ then
    ⟨304,[],"",""⟩
  else ⟨200,server.content q,(server.validator q).1,(server.validator q).2⟩

/-- A fetch that takes no time, without a key, with an interval of an hour. -/
def plainFetch (server : Server) (q : ℚ) (interrupted : Bool) : Fetch :=
  ⟨"",1,q,q,q,fun headers => some (plainResponse server q headers),interrupted⟩

theorem optionalHeader_inj {a b : String} (h : optionalHeader a = optionalHeader b) : a = b := by
  simp only [optionalHeader] at h
  split_ifs at h with ha hb hb
  · exact Option.some.inj h
  · rw [not_not.mp ha,not_not.mp hb]

theorem redact_blank [SetOrder] (s : String) : redactSecretText s "" = s := by
  rw [redactSecretText]
  exact if_pos (by decide)

theorem plainFetch_orderly [SetOrder] (content : ℚ → Bytes) (etag : ℚ → String) {now q : ℚ}
    (hq : now ≤ q) (interrupted : Bool) :
    Orderly (plainServer content etag) 0 now (plainFetch (plainServer content etag) q interrupted) := by
  refine ⟨hq,le_rfl,le_rfl,(add_zero q).ge,⟨?_,?_⟩,fun p => ?_,one_pos⟩
  · rintro tag modified response hresponse hstatus
    obtain rfl := Option.some.inj hresponse
    rw [plainResponse] at hstatus
    split at hstatus
    · rename_i hheaders
      obtain ⟨htag,hmodified⟩ := Headers.mk.inj hheaders
      exact Prod.ext (optionalHeader_inj htag) (optionalHeader_inj hmodified)
    · cases hstatus
  · rintro headers response hresponse hstatus -
    obtain rfl := Option.some.inj hresponse
    rw [plainResponse] at hstatus ⊢
    split
    · rename_i hheaders
      rw [if_pos hheaders] at hstatus
      exact absurd rfl hstatus
    · exact ⟨rfl,rfl⟩
  · exact ⟨redact_blank _,redact_blank _⟩

theorem fetchCachedBytes_plain [SetOrder] (server : Server) (q : ℚ) (interrupted : Bool) (entry : Entry) :
    fetchCachedBytes (plainFetch server q interrupted) entry =
      if entry.payload.isSome ∧ q-(effective entry).fetchedAt < 3600 then (entry.payload,entry)
      else (plainFetch server q interrupted).revalidate (effective entry) entry := by
  have hredact : ∀ m : Metadata, m.redact "" = m := fun m => by
    rw [Metadata.redact,redact_blank,redact_blank]
  have hscrub : entry.scrub "" = entry := by
    have hmap : entry.metadata.map (Metadata.redact "") = entry.metadata := by
      cases entry.metadata <;> simp [hredact]
    rw [Entry.scrub,hmap]
  have hage : (plainFetch server q interrupted).maxAge = 3600 := by
    rw [Fetch.maxAge]
    norm_num [plainFetch]
  simp only [fetchCachedBytes,Fetch.young,hage,show (plainFetch server q interrupted).apiKey = "" from rfl,
    hscrub,hredact,show (plainFetch server q interrupted).checkedAt = q from rfl,Bool.and_eq_true,
    decide_eq_true_eq]
  rfl

/-- The server shows the same all the time. -/
def steadyServer : Server := plainServer (fun _ => [1]) fun _ => "first"

theorem cached_bytes_sample : ∃ cache,
    Run (step steadyServer 0) ⟨⟨none,none⟩,0⟩ [plainFetch steadyServer 0 false] cache ∧
      (fetchCachedBytes (plainFetch steadyServer 10 false) cache.entry).1 = some [1] ∧
      steadyServer.Shown (10-((plainFetch steadyServer 10 false).maxAge+0)) 10 [1] := by
  have hrun : Run (step steadyServer 0) ⟨⟨none,none⟩,0⟩ [plainFetch steadyServer 0 false]
      ⟨⟨some [1],some ⟨0,"first",""⟩⟩,0⟩ := by
    refine .single ⟨plainFetch_orderly _ _ le_rfl _,?_⟩
    rw [Cache.fetched]
    dsimp only
    rw [fetchCachedBytes_plain,if_neg (by simp)]
    rfl
  have hread : (fetchCachedBytes (plainFetch steadyServer 10 false) ⟨some [1],some ⟨0,"first",""⟩⟩).1 =
      some [1] := by
    rw [fetchCachedBytes_plain,if_pos (by norm_num [effective])]
  have hcond : Unconditional steadyServer := fun _ hstands => by
    have htag : "" = "first" := congrArg Prod.fst hstands
    exact absurd htag (by decide)
  have hshown := (cached_bytes_shown le_rfl le_rfl hcond (.inl fun _ _ _ _ _ _ _ => rfl) hrun).2.2
    (plainFetch steadyServer 10 false) (plainFetch_orderly _ _ (by norm_num) _) [1] hread
  exact ⟨_,hrun,hread,hshown⟩

/-- The server shows one payload in its second hour, and another before and after it. -/
def backServer : Server :=
  plainServer (fun q => if 3600 ≤ q ∧ q < 7200 then [2] else [1])
    fun q => if 3600 ≤ q ∧ q < 7200 then "second" else "first"

theorem backServer_strong : backServer.Strong := by
  intro e q he hstands
  have htag := congrArg Prod.fst hstands
  simp only [backServer,plainServer] at htag ⊢
  split_ifs at htag ⊢ <;> first | rfl | exact absurd htag (by decide)

/-- One interruption is enough for a payload to be returned that was not shown for any length of
time, although the server gives a validator again only with what it gave it with. -/
theorem interrupted_copy_stays_stale [SetOrder] (age : ℚ) :
    ∃ fetches cache fetch c, Run (step backServer 0) ⟨⟨none,none⟩,0⟩ fetches cache ∧
      fetches.countP (·.interrupted) = 1 ∧ Orderly backServer 0 cache.clock fetch ∧
      (fetchCachedBytes fetch cache.entry).1 = some c ∧
      ¬backServer.Shown (fetch.checkedAt-age) fetch.recordedAt c := by
  have hnone : optionalHeader "" = none := by decide
  have hone : optionalHeader "first" = some "first" := by decide
  have htwo : optionalHeader "second" = some "second" := by decide
  have hlate : (7200 : ℚ) ≤ 7200+|age| := le_add_of_nonneg_right (abs_nonneg age)
  have hpast : ¬(|age| < 0) := not_lt.mpr (abs_nonneg age)
  have hfirst : fetchCachedBytes (plainFetch backServer 0 false) ⟨none,none⟩ =
      (some [1],⟨some [1],some ⟨0,"first",""⟩⟩) := by
    rw [fetchCachedBytes_plain,if_neg (by simp)]
    norm_num [Fetch.revalidate,plainFetch,plainResponse,backServer,plainServer,effective,hnone,hone]
    rfl
  have hsecond : fetchCachedBytes (plainFetch backServer 3600 true) ⟨some [1],some ⟨0,"first",""⟩⟩ =
      (none,⟨some [2],some ⟨0,"first",""⟩⟩) := by
    rw [fetchCachedBytes_plain,if_neg (by norm_num [effective])]
    norm_num [Fetch.revalidate,plainFetch,plainResponse,backServer,plainServer,effective,hnone,hone,htwo]
    rfl
  have hthird : (fetchCachedBytes (plainFetch backServer (7200+|age|) false)
      ⟨some [2],some ⟨0,"first",""⟩⟩).1 = some [2] := by
    have hold : ¬(7200+|age|-0 < 3600) := by linarith
    rw [fetchCachedBytes_plain,if_neg fun h => hold h.2]
    simp [Fetch.revalidate,plainFetch,plainResponse,backServer,plainServer,effective,hpast]
  refine ⟨[plainFetch backServer 0 false,plainFetch backServer 3600 true],
    ⟨⟨some [2],some ⟨0,"first",""⟩⟩,3600⟩,plainFetch backServer (7200+|age|) false,[2],?_,rfl,?_,hthird,?_⟩
  · refine .cons ⟨plainFetch_orderly _ _ le_rfl _,rfl⟩ (.single ⟨plainFetch_orderly _ _ ?_ _,?_⟩)
    · change (0 : ℚ) ≤ 3600
      norm_num
    · rw [Cache.fetched,Cache.fetched]
      dsimp only
      rw [hfirst,hsecond]
      rfl
  · exact plainFetch_orderly _ _ (le_trans (by norm_num) hlate) _
  · rintro ⟨p,hsince,-,hp⟩
    have hage : (7200 : ℚ) ≤ p := by
      have habs := neg_abs_le age
      have hself := le_abs_self age
      change 7200+|age|-age < p at hsince
      linarith
    simp [backServer,plainServer,not_lt.mpr hage] at hp

end EvidenceCache
end WormholeObservatory
