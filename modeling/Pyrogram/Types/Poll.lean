import Pyrogram.Types.Chat
import Pyrogram.Types.PollPercentage
import Mathlib

/-!
# The answers of a poll

A poll lists its answers, and apart from them the results of each.  A result names its answer by
the bytes of the answer's option; `Poll._parse` takes the two lists side by side.  The texts and
the media of a poll and of its answers are read by a parser of their own.

## Main definitions

* `Poll.parse` — the poll of a message.
* `votePoll` — what is sent for a vote.
* `Poll.Follows` — votes, marks and voters are those of the result that names the answer.
* `Poll.InStep` — the two lists may be taken side by side.

## Main results

* `Poll.follows_iff` — **the results follow their options exactly when the lists are in step.**
-/

namespace Pyrogram.Types

open ByKey

/-! ### What the server sends -/

/-- `raw.types.PollAnswer`; `content` is its text and its media. -/
structure RawPollAnswer (τ : Type) where
  option : ByteArray
  content : τ
  addedBy : Option Peer := none
  deriving DecidableEq

/-- `raw.types.PollAnswerVoters` -/
structure RawPollAnswerVoters where
  chosen : Bool := false
  correct : Bool := false
  option : ByteArray
  voters : Option ℕ
  recentVoters : List Peer := []
  deriving DecidableEq

/-- `raw.types.PollResults` -/
structure RawPollResults where
  results : List RawPollAnswerVoters
  totalVoters : Option ℤ

/-- `raw.types.Poll`; `content` is its question. -/
structure RawPoll (τ : Type) where
  id : ℤ
  content : τ
  answers : List (RawPollAnswer τ)

/-! ### The poll -/

/-- `types.PollOption` -/
structure PollOption (γ : Type) where
  persistentId : String
  content : γ
  voterCount : Option ℕ
  votePercentage : ℤ
  recentVoters : Option (List (Option Chat))
  addedByUser : Option User
  addedByChat : Option Chat

/-- `types.Poll` -/
structure Poll (γ : Type) where
  id : ℤ
  content : γ
  options : List (PollOption γ)
  totalVoterCount : Option ℤ
  chosenOptionIds : Option (List ℕ)
  correctOptionIds : Option (List ℕ)

def indexError : Exc := .other "IndexError"

def typeError : Exc := .other "TypeError"

def unicodeDecodeError : Exc := .other "UnicodeDecodeError"

/-- `list[i]` -/
def index {α : Type} (l : List α) (i : ℕ) : Except Exc α :=
  match l[i]? with
  | some a => .ok a
  | none => .error indexError

/-- `bytes.decode()` -/
def decode (bytes : ByteArray) : Except Exc String :=
  match String.fromUTF8? bytes with
  | some s => .ok s
  | none => .error unicodeDecodeError

/-- What `sum` asks of each number. -/
def asNumber : Option ℕ → Except Exc ℕ
  | some n => .ok n
  | none => .error typeError

/-- `ids or None` -/
def orNone {α : Type} (l : List α) : Option (List α) := if l.isEmpty then none else some l

namespace Poll

variable {τ γ : Type} (parseContent : τ → List RawUser → List RawChat → Except Exc γ)

/-- `results[i] if results else None` -/
def resultAt (results : List RawPollAnswerVoters) (i : ℕ) :
    Except Exc (Option RawPollAnswerVoters) :=
  if results.isEmpty then .ok none else some <$> index results i

/-- `users.get(get_raw_peer_id(voter) or chats.get(..))`: an id is not zero, so the chats are not
asked. -/
def voterEntry (users : List RawUser) (voter : Peer) : Option (RawUser ⊕ RawChat) :=
  (latest RawUser.id voter.rawId users).map .inl

/-- The recent voters of an option -/
def parseVoters (users : List RawUser) (result : Option RawPollAnswerVoters) :
    Except Exc (Option (List (Option Chat))) :=
  match result with
  | none => .ok none
  | some result =>
    if result.recentVoters.isEmpty then .ok none
    else some <$> result.recentVoters.mapM fun voter => Chat.parseChat (voterEntry users voter)

/-- `chats.get(get_raw_peer_id(answer.added_by))` -/
def adderEntry (chats : List RawChat) (answer : RawPollAnswer τ) : Option (RawUser ⊕ RawChat) :=
  ((getRawPeerId answer.addedBy).bind (latest RawChat.id · chats)).map .inr

/-- The `PollOption` of an answer -/
def parseOption (users : List RawUser) (chats : List RawChat) (answer : RawPollAnswer τ)
    (result : Option RawPollAnswerVoters) (percentage : ℤ) : Except Exc (PollOption γ) := do
  let persistentId ← decode answer.option
  let content ← parseContent answer.content users chats
  let recentVoters ← parseVoters users result
  let addedByChat ← Chat.parseChat (adderEntry chats answer)
  return {
    persistentId
    content
    voterCount := match result with
      | some result => result.voters
      | none => some 0
    votePercentage := percentage
    recentVoters
    addedByUser := User.parse ((getRawPeerId answer.addedBy).bind (latest RawUser.id · users))
    addedByChat }

/-- One turn of the loop over the answers: the answer's place, its result and its option. -/
def parseAnswer (users : List RawUser) (chats : List RawChat) (results : List RawPollAnswerVoters)
    (percentages : List ℤ) (answer : RawPollAnswer τ × ℕ) :
    Except Exc (ℕ × Option RawPollAnswerVoters × PollOption γ) := do
  let result ← resultAt results answer.2
  let percentage ← index percentages answer.2
  let option ← parseOption parseContent users chats answer.1 result percentage
  return (answer.2, result, option)

/-- The places of the answers whose result is marked. -/
def marked (mark : RawPollAnswerVoters → Bool)
    (parsed : List (ℕ × Option RawPollAnswerVoters × PollOption γ)) : List ℕ :=
  (parsed.filter fun p => p.2.1.any mark).map Prod.fst

/-- `voters` of each answer's result -/
def votersAt (results : List RawPollAnswerVoters) (i : ℕ) : Except Exc (Option ℕ) :=
  if results.isEmpty then .ok (some 0) else RawPollAnswerVoters.voters <$> index results i

/-- `Poll._parse` -/
def parse (poll : RawPoll τ) (results : RawPollResults) (users : List RawUser)
    (chats : List RawChat) :
    Except Exc (Poll γ) := do
  let voters ← (List.range poll.answers.length).mapM (votersAt results.results)
  let voterCounts ← voters.mapM asNumber
  let percentages := getVotePercentage voterCounts (results.totalVoters.getD 0)
  let parsed ← poll.answers.zipIdx.mapM (parseAnswer parseContent users chats results.results
    percentages)
  let content ← parseContent poll.content users chats
  return {
    id := poll.id
    content
    options := parsed.map fun p => p.2.2
    totalVoterCount := results.totalVoters
    chosenOptionIds := orNone (marked RawPollAnswerVoters.chosen parsed)
    correctOptionIds := orNone (marked RawPollAnswerVoters.correct parsed) }

/-- `list[i]` where a negative index counts from the end -/
def indexInt {α : Type} (l : List α) (i : ℤ) : Except Exc α :=
  if 0 ≤ i then index l i.toNat
  else if 0 ≤ l.length + i then index l (l.length + i).toNat
  else .error indexError

/-- The options that `vote_poll` sends. -/
def votePoll (poll : Poll γ) (options : List ℤ) : Except Exc (List ByteArray) :=
  options.mapM fun option => (fun o => o.persistentId.toByteArray) <$> indexInt poll.options option

/-! ### What the results say -/

/-- What the dicts hold under a peer, if it is of the kind of the peer. -/
def entry (users : List RawUser) (chats : List RawChat) : Peer → Option (RawUser ⊕ RawChat)
  | .user userId => ((latest RawUser.id userId users).filter fun user => !user.isEmpty).map .inl
  | .chat chatId => ((latest RawChat.id chatId chats).filter fun chat => chat.kind = .group &&
      !chat.isEmpty).map .inr
  | .channel channelId =>
      ((latest RawChat.id channelId chats).filter fun chat => chat.kind = .channel &&
        !chat.isEmpty).map .inr

/-- The result that names an answer. -/
def named (results : List RawPollAnswerVoters) (answer : RawPollAnswer τ) :
    Option RawPollAnswerVoters :=
  results.find? fun result => result.option = answer.option

/-- A poll as the server makes it: options are different, each has one result at most, and the
dicts hold who voted. -/
structure WellFormed (answers : List (RawPollAnswer τ)) (results : List RawPollAnswerVoters)
    (users : List RawUser)
    (chats : List RawChat) : Prop where
  answers_nodup : (answers.map RawPollAnswer.option).Nodup
  results_nodup : (results.map RawPollAnswerVoters.option).Nodup
  names : ∀ result ∈ results, ∃ answer ∈ answers, answer.option = result.option
  voters : ∀ result ∈ results, ∀ voter ∈ result.recentVoters, entry users chats voter ≠ none

/-- The option of an answer is as the result that names the answer says. -/
structure OptionFollows (results : List RawPollAnswerVoters) (users : List RawUser)
    (chats : List RawChat)
    (answer : RawPollAnswer τ) (option : PollOption γ) : Prop where
  voterCount : option.voterCount = ((named results answer).elim (some 0) RawPollAnswerVoters.voters)
  recentVoters : (option.recentVoters.getD []).map (Option.map Chat.raw) =
    ((named results answer).elim [] RawPollAnswerVoters.recentVoters).map (entry users chats)

/-- The places of the answers whose result is marked, by the options. -/
def markedAnswers (mark : RawPollAnswerVoters → Bool) (answers : List (RawPollAnswer τ))
    (results : List RawPollAnswerVoters) : List ℕ :=
  (answers.zipIdx.filter fun p => (named results p.1).any mark).map Prod.snd

/-- **The results follow their options.** -/
structure Follows (answers : List (RawPollAnswer τ)) (results : List RawPollAnswerVoters)
    (users : List RawUser)
    (chats : List RawChat) (poll : Poll γ) : Prop where
  options : List.Forall₂ (OptionFollows results users chats) answers poll.options
  chosen : poll.chosenOptionIds.getD [] = markedAnswers RawPollAnswerVoters.chosen answers results
  correct : poll.correctOptionIds.getD [] = markedAnswers RawPollAnswerVoters.correct
    answers results
  vote : ∀ indices : List ℤ, votePoll poll indices = indices.mapM fun i => RawPollAnswer.option <$>
    indexInt answers i

/-- **The lists may be taken side by side.**  Options are texts, there are no results or one with
a number of voters for each answer, these agree with the answers in their places, and no chat has
voted. -/
structure InStep (poll : RawPoll τ) (results : List RawPollAnswerVoters) (users : List RawUser)
    (chats : List RawChat) :
    Prop where
  content : ∃ content, parseContent poll.content users chats = .ok content
  answers : ∀ answer ∈ poll.answers, (∃ content, parseContent answer.content users chats =
    .ok content) ∧
    (∃ chat, Chat.parseChat (adderEntry chats answer) = .ok chat) ∧ answer.option.IsValidUTF8
  length : results = [] ∨ results.length = poll.answers.length
  voters : ∀ result ∈ results, result.voters ≠ none ∧ ∀ voter ∈ result.recentVoters, ∃ userId,
    voter = .user userId
  agree : ∀ (i : ℕ) (answer : RawPollAnswer τ) (result : RawPollAnswerVoters), poll.answers[i]? =
    some answer →
    results[i]? = some result → { result with option := answer.option } ∈ results

/-! ### What is parsed of the lists -/

@[simp] theorem getD_orNone {α : Type} (l : List α) : (orNone l).getD [] = l := by
  cases l <;> rfl

theorem index_eq_ok {α : Type} {l : List α} {i : ℕ} {a : α} : index l i = .ok a ↔
    l[i]? = some a := by
  rw [index]
  cases l[i]? <;> simp

theorem decode_eq_ok {bytes : ByteArray} {s : String} : decode bytes = .ok s ↔
    s.toByteArray = bytes := by
  rw [decode, String.fromUTF8?]
  split
  · next hs =>
    split at hs
    · cases hs
      rw [Except.ok.injEq]
      exact ⟨fun h => h ▸ rfl, fun h => String.toByteArray_inj.mp h.symm⟩
    · cases hs
  · next hs =>
    split at hs
    · cases hs
    · next hvalid => exact iff_of_false nofun fun h => hvalid (h ▸ s.isValidUTF8)

theorem exists_decode_iff {bytes : ByteArray} : (∃ s, decode bytes = .ok s) ↔
    bytes.IsValidUTF8 := by
  simp only [decode_eq_ok]
  exact ⟨fun ⟨s, hs⟩ => hs ▸ s.isValidUTF8, fun h => ⟨String.fromUTF8 bytes h, rfl⟩⟩

variable {parseContent} {results : List RawPollAnswerVoters} {answers : List (RawPollAnswer τ)}
    {users : List RawUser}
  {chats : List RawChat} {i : ℕ}

theorem resultAt_eq_ok {result : Option RawPollAnswerVoters} :
    resultAt results i = .ok result ↔ (results = [] ∨ i < results.length) ∧
      result = results[i]? := by
  rw [resultAt]
  by_cases hnil : results = []
  · simp [hnil, eq_comm]
  · rw [if_neg (by simpa using hnil), Except.map_eq_ok]
    simp only [index_eq_ok, hnil, false_or]
    constructor
    · rintro ⟨r, hr, rfl⟩
      exact ⟨(List.getElem?_eq_some_iff.mp hr).1, hr.symm⟩
    · rintro ⟨hi, rfl⟩
      exact ⟨_, List.getElem?_eq_getElem hi, (List.getElem?_eq_getElem hi).symm⟩

/-- The counts are there when each answer has a result in its place, with a number. -/
theorem exists_counts_iff {n : ℕ} :
    (∃ voters counts, (List.range n).mapM (votersAt results) = .ok voters ∧
      voters.mapM asNumber = .ok counts) ↔
      results = [] ∨ ∀ i < n, ∃ result, results[i]? = some result ∧ result.voters ≠ none := by
  -- without results every answer counts no voters
  by_cases hnil : results = []
  · refine iff_of_true ?_ (.inl hnil)
    obtain ⟨voters, hvoters⟩ := Except.exists_mapM_eq_ok.mpr fun i (_ : i ∈ List.range n) =>
      ⟨some 0, (by simp [votersAt, hnil] : votersAt results i = .ok (some 0))⟩
    obtain ⟨counts, hcounts⟩ := Except.exists_mapM_eq_ok.mpr fun v (hv : v ∈ voters) => by
      obtain ⟨i, -, hi⟩ := Except.exists_of_mem_mapM hvoters hv
      obtain rfl : some 0 = v := by simpa [votersAt, hnil] using hi
      exact ⟨0, (rfl : asNumber (some 0) = .ok 0)⟩
    exact ⟨voters, counts, hvoters, hcounts⟩
  · have hat (i : ℕ) (v : Option ℕ) : votersAt results i = .ok v ↔
        ∃ result, results[i]? = some result ∧ result.voters = v := by
      rw [votersAt, if_neg (by simpa using hnil), Except.map_eq_ok]
      simp only [index_eq_ok]
    simp only [hnil, false_or]
    constructor
    · rintro ⟨voters, counts, hvoters, hcounts⟩ i hi
      obtain ⟨v, hv, hvi⟩ := Except.exists_mem_of_mapM hvoters (List.mem_range.mpr hi)
      obtain ⟨result, hresult, rfl⟩ := (hat i v).mp hvi
      obtain ⟨c, -, hc⟩ := Except.exists_mem_of_mapM hcounts hv
      exact ⟨result, hresult, fun hnone => by rw [hnone] at hc; cases hc⟩
    · intro h
      obtain ⟨voters, hvoters⟩ := Except.exists_mapM_eq_ok.mpr fun i (hi : i ∈ List.range n) => by
        obtain ⟨result, hresult, -⟩ := h i (List.mem_range.mp hi)
        exact ⟨_, (hat i _).mpr ⟨result, hresult, rfl⟩⟩
      obtain ⟨counts, hcounts⟩ := Except.exists_mapM_eq_ok.mpr fun v (hv : v ∈ voters) => by
        obtain ⟨i, hi, hvi⟩ := Except.exists_of_mem_mapM hvoters hv
        obtain ⟨result, hresult, hsome⟩ := h i (List.mem_range.mp hi)
        obtain ⟨result', hresult', rfl⟩ := (hat i v).mp hvi
        obtain rfl := Option.some.inj (hresult.symm.trans hresult')
        obtain ⟨count, hcount⟩ := Option.ne_none_iff_exists'.mp hsome
        exact ⟨count, (by rw [hcount]; rfl : asNumber result.voters = .ok count)⟩
      exact ⟨voters, counts, hvoters, hcounts⟩

theorem length_of_counts {n : ℕ} {voters : List (Option ℕ)} {counts : List ℕ}
    (hvoters : (List.range n).mapM (votersAt results) = .ok voters)
    (hcounts : voters.mapM asNumber = .ok counts) :
    counts.length = n := by
  rw [← (Except.mapM_eq_ok.mp hcounts).length_eq, ← (Except.mapM_eq_ok.mp hvoters).length_eq,
    List.length_range]

/-- What a voter is read as is the user of its number. -/
theorem parseChat_voter {voter : Peer} {chat : Option Chat}
    (h : Chat.parseChat (voterEntry users voter) = .ok chat) :
    chat.map Chat.raw = voterEntry users voter := by
  revert h
  rcases hentry : voterEntry users voter with _ | ⟨_ | _⟩ | _
  · rintro ⟨⟩
    rfl
  · rintro ⟨⟩
  · rintro ⟨⟩
    rfl
  · obtain ⟨_, -, ⟨⟩⟩ := Option.map_eq_some_iff.mp hentry

theorem map_raw_voters {voters : List Peer} {chats : List (Option Chat)}
    (h : List.Forall₂ (fun voter chat => Chat.parseChat (voterEntry users voter) = .ok chat) voters
      chats) :
    chats.map (Option.map Chat.raw) = voters.map (voterEntry users) := by
  induction h with
  | nil => rfl
  | cons hvoter _ ih => rw [List.map_cons, List.map_cons, ih, parseChat_voter hvoter]

theorem raw_parseVoters {result : Option RawPollAnswerVoters} {voters : Option (List (Option Chat))}
    (h : parseVoters users result = .ok voters) :
    (voters.getD []).map (Option.map Chat.raw) =
      (result.elim [] RawPollAnswerVoters.recentVoters).map (voterEntry users) := by
  cases result with
  | none =>
    cases h
    rfl
  | some result =>
    rw [parseVoters] at h
    split at h
    · next hnil =>
      cases h
      simp [List.isEmpty_iff.mp hnil]
    · obtain ⟨chats, hchats, rfl⟩ := Except.map_eq_ok.mp h
      exact map_raw_voters (Except.mapM_eq_ok.mp hchats)

/-- The option of an answer, as it is parsed. -/
structure Parsed (users : List RawUser) (results : List RawPollAnswerVoters)
    (answer : RawPollAnswer τ × ℕ)
    (p : ℕ × Option RawPollAnswerVoters × PollOption γ) : Prop where
  place : p.1 = answer.2
  result : p.2.1 = results[answer.2]?
  option : p.2.2.persistentId.toByteArray = answer.1.option
  voterCount : p.2.2.voterCount = results[answer.2]?.elim (some 0) RawPollAnswerVoters.voters
  recentVoters : (p.2.2.recentVoters.getD []).map (Option.map Chat.raw) =
    (results[answer.2]?.elim [] RawPollAnswerVoters.recentVoters).map (voterEntry users)

theorem parsed_of_parseAnswer {percentages : List ℤ} {answer : RawPollAnswer τ × ℕ}
    {p : ℕ × Option RawPollAnswerVoters × PollOption γ}
    (h : parseAnswer parseContent users chats results percentages answer = .ok p) :
    Parsed users results answer p := by
  obtain ⟨result, hresult, h⟩ := Except.bind_eq_ok.mp h
  obtain ⟨percentage, -, h⟩ := Except.bind_eq_ok.mp h
  obtain ⟨option, hoption, h⟩ := Except.bind_eq_ok.mp h
  obtain ⟨persistentId, hdecode, hoption⟩ := Except.bind_eq_ok.mp hoption
  obtain ⟨content, -, hoption⟩ := Except.bind_eq_ok.mp hoption
  obtain ⟨voters, hvoters, hoption⟩ := Except.bind_eq_ok.mp hoption
  obtain ⟨adder, -, hoption⟩ := Except.bind_eq_ok.mp hoption
  cases hoption
  cases h
  obtain ⟨-, rfl⟩ := resultAt_eq_ok.mp hresult
  refine ⟨rfl, rfl, decode_eq_ok.mp hdecode, ?_, raw_parseVoters hvoters⟩
  cases results[answer.2]? <;> rfl

/-- An answer is parsed without an error. -/
theorem exists_parseAnswer_iff {percentages : List ℤ} {answer : RawPollAnswer τ}
    (hi : i < percentages.length) :
    (∃ p, parseAnswer parseContent users chats results percentages (answer, i) = .ok p) ↔
      (results = [] ∨ i < results.length) ∧ answer.option.IsValidUTF8 ∧
        (∃ content, parseContent answer.content users chats = .ok content) ∧
        (∃ voters, parseVoters users results[i]? = .ok voters) ∧
        ∃ chat, Chat.parseChat (adderEntry chats answer) = .ok chat := by
  rw [← exists_decode_iff]
  constructor
  · rintro ⟨p, h⟩
    obtain ⟨result, hresult, h⟩ := Except.bind_eq_ok.mp h
    obtain ⟨percentage, -, h⟩ := Except.bind_eq_ok.mp h
    obtain ⟨option, hoption, h⟩ := Except.bind_eq_ok.mp h
    obtain ⟨persistentId, hdecode, hoption⟩ := Except.bind_eq_ok.mp hoption
    obtain ⟨content, hcontent, hoption⟩ := Except.bind_eq_ok.mp hoption
    obtain ⟨voters, hvoters, hoption⟩ := Except.bind_eq_ok.mp hoption
    obtain ⟨adder, hadder, -⟩ := Except.bind_eq_ok.mp hoption
    obtain ⟨hplace, rfl⟩ := resultAt_eq_ok.mp hresult
    exact ⟨hplace, ⟨_, hdecode⟩, ⟨_, hcontent⟩, ⟨_, hvoters⟩, ⟨_, hadder⟩⟩
  · rintro ⟨hplace, ⟨persistentId, hdecode⟩, ⟨content, hcontent⟩, ⟨voters, hvoters⟩, chat, hadder⟩
    have hresult := resultAt_eq_ok.mpr ⟨hplace, rfl⟩
    have hpercentage := index_eq_ok.mpr (List.getElem?_eq_getElem hi)
    simp only [parseAnswer, parseOption, hresult, hpercentage, hdecode, hcontent, hvoters, hadder,
      Except.bind_ok]
    exact ⟨_, rfl⟩

/-! ### Marks and votes -/

theorem marked_eq {mark : RawPollAnswerVoters → Bool} {l : List (RawPollAnswer τ × ℕ)}
    {parsed : List (ℕ × Option RawPollAnswerVoters × PollOption γ)}
    (h : List.Forall₂ (Parsed users results) l parsed) :
    marked mark parsed = (l.filter fun a => results[a.2]?.any mark).map Prod.snd := by
  induction h with
  | nil => rfl
  | @cons a p l parsed hp _ ih =>
    simp only [marked, List.filter_cons, hp.result] at ih ⊢
    split
    · rw [List.map_cons, List.map_cons, ih, hp.place]
    · exact ih

/-- Places that are picked are the same when each is picked or not alike. -/
theorem filter_zipIdx_eq_iff {α : Type} {l : List α} {P Q : α × ℕ → Bool} :
    (l.zipIdx.filter P).map Prod.snd = (l.zipIdx.filter Q).map Prod.snd ↔
      ∀ x ∈ l.zipIdx, P x = Q x := by
  have hmem (P : α × ℕ → Bool) (x : α × ℕ) (hx : x ∈ l.zipIdx) :
      x.2 ∈ (l.zipIdx.filter P).map Prod.snd ↔ P x = true := by
    constructor
    · intro h
      obtain ⟨y, hy, hxy⟩ := List.mem_map.mp h
      obtain ⟨hy, hP⟩ := List.mem_filter.mp hy
      have hyx : y.1 = x.1 := by
        rw [List.mem_zipIdx_iff_getElem?] at hx hy
        rw [hxy, hx] at hy
        exact (Option.some.inj hy).symm
      exact Prod.ext hyx hxy ▸ hP
    · exact fun hP => List.mem_map_of_mem (List.mem_filter.mpr ⟨hx, hP⟩)
  constructor
  · intro h x hx
    rw [Bool.eq_iff_iff, ← hmem P x hx, ← hmem Q x hx, h]
  · intro h
    rw [List.filter_congr h]

theorem indexInt_map {α β : Type} (f : α → β) (l : List α) (i : ℤ) :
    indexInt (l.map f) i = f <$> indexInt l i := by
  have hindex (i : ℕ) : index (l.map f) i = f <$> index l i := by
    rw [index, index, List.getElem?_map]
    cases l[i]? <;> rfl
  simp only [indexInt, List.length_map, hindex]
  split
  · rfl
  · split <;> rfl

/-- **A vote sends the bytes of the options**, whatever else is parsed. -/
theorem votePoll_eq {poll : Poll γ}
    (h : List.Forall₂ (fun answer option => option.persistentId.toByteArray =
    RawPollAnswer.option answer)
    answers poll.options) (indices : List ℤ) :
    votePoll poll indices = indices.mapM fun i => RawPollAnswer.option <$> indexInt answers i := by
  have hmap : poll.options.map (fun o => o.persistentId.toByteArray) =
      answers.map RawPollAnswer.option := by
    generalize poll.options = options at h
    induction h with
    | nil => rfl
    | cons hd _ ih => rw [List.map_cons, List.map_cons, ih, hd]
  simp only [votePoll, ← indexInt_map, hmap]

/-! ### The results in their places -/

theorem named_eq_some (h : WellFormed answers results users chats) {answer : RawPollAnswer τ}
    {result : RawPollAnswerVoters}
    (hmem : result ∈ results) (hoption : result.option = answer.option) :
    named results answer = some result := by
  cases hfind : named results answer with
  | none => exact absurd hoption (by simpa using List.find?_eq_none.mp hfind result hmem)
  | some other =>
    have hother := List.mem_of_find?_eq_some hfind
    have hname : other.option = answer.option := by simpa using List.find?_some hfind
    rw [List.inj_on_of_nodup_map h.results_nodup hother hmem (hname.trans hoption.symm)]

theorem mem_of_named {answer : RawPollAnswer τ} {result : RawPollAnswerVoters}
    (h : named results answer = some result) :
    result ∈ results ∧ result.option = answer.option :=
  ⟨List.mem_of_find?_eq_some h, by simpa using List.find?_some h⟩

theorem subset_options (h : WellFormed answers results users chats) :
    results.map RawPollAnswerVoters.option ⊆ answers.map RawPollAnswer.option := by
  intro o ho
  obtain ⟨result, hresult, rfl⟩ := List.mem_map.mp ho
  obtain ⟨answer, hanswer, hname⟩ := h.names result hresult
  exact hname ▸ List.mem_map_of_mem hanswer

theorem length_results_le (h : WellFormed answers results users chats) :
    results.length ≤ answers.length := by
  simpa using (List.subperm_of_subset h.results_nodup (subset_options h)).length_le

/-- Where there are as many results as answers, each answer is named. -/
theorem exists_named (h : WellFormed answers results users chats)
    (hlength : results.length = answers.length)
    {answer : RawPollAnswer τ} (hanswer : answer ∈ answers) :
    ∃ result, named results answer = some result := by
  have hperm := (List.subperm_of_subset h.results_nodup (subset_options h)).perm_of_length_le
    (by simp [hlength])
  obtain ⟨result, hresult, hoption⟩ :=
    List.mem_map.mp (hperm.mem_iff.mpr (List.mem_map_of_mem hanswer))
  exact ⟨result, named_eq_some h hresult hoption⟩

/-- A voter that the dicts hold is found if it is a user. -/
theorem voterEntry_user {userId : ℕ+} (h : entry users chats (.user userId) ≠ none) :
    voterEntry users (.user userId) = entry users chats (.user userId) := by
  rw [entry] at h ⊢
  rw [voterEntry, Peer.rawId]
  cases hlatest : latest RawUser.id userId users with
  | none => rfl
  | some user =>
    rw [hlatest] at h
    have hfilter : (some user).filter (fun user => !user.isEmpty) = some user :=
      Option.filter_eq_some_iff.mpr ⟨rfl, by
        by_contra hempty
        exact h (by rw [Option.filter_some, if_neg hempty]; rfl)⟩
    rw [hfilter]

theorem parseChat_user {userId : ℕ+} (h : entry users chats (.user userId) ≠ none) :
    ∃ chat, Chat.parseChat (voterEntry users (.user userId)) = .ok chat := by
  have heq := voterEntry_user h
  obtain ⟨raw, hraw⟩ := Option.ne_none_iff_exists'.mp h
  rw [heq, hraw]
  obtain ⟨user, huser, rfl⟩ := Option.map_eq_some_iff.mp hraw
  cases user with
  | empty _ => exact absurd (Option.filter_eq_some_iff.mp huser).2 (by simp [RawUser.isEmpty])
  | user _ _ _ _ _ _ => exact ⟨_, rfl⟩

/-- What is found is a user. -/
theorem isUser_of_entry_eq {voter voter' : Peer}
    (h : voterEntry users voter' = entry users chats voter)
    (hentry : entry users chats voter ≠ none) : ∃ userId, voter = .user userId := by
  cases voter with
  | user userId => exact ⟨userId, rfl⟩
  | chat chatId =>
    obtain ⟨raw, hraw⟩ := Option.ne_none_iff_exists'.mp hentry
    obtain ⟨_, -, rfl⟩ := Option.map_eq_some_iff.mp hraw
    obtain ⟨_, -, ⟨⟩⟩ := Option.map_eq_some_iff.mp (h.trans hraw)
  | channel channelId =>
    obtain ⟨raw, hraw⟩ := Option.ne_none_iff_exists'.mp hentry
    obtain ⟨_, -, rfl⟩ := Option.map_eq_some_iff.mp hraw
    obtain ⟨_, -, ⟨⟩⟩ := Option.map_eq_some_iff.mp (h.trans hraw)

/-- Users that the dicts hold are parsed. -/
theorem exists_parseVoters (h : WellFormed answers results users chats)
    (husers : ∀ result ∈ results, result.voters ≠ none ∧ ∀ voter ∈ result.recentVoters, ∃ userId,
      voter = .user userId) :
    ∃ voters, parseVoters users results[i]? = .ok voters := by
  cases hresult : results[i]? with
  | none => exact ⟨none, rfl⟩
  | some result =>
    have hmem := List.mem_of_getElem? hresult
    rw [parseVoters]
    split
    · exact ⟨none, rfl⟩
    · have heach : ∀ voter ∈ result.recentVoters, ∃ chat, Chat.parseChat (voterEntry users voter) =
          .ok chat := by
        intro voter hvoter
        obtain ⟨userId, rfl⟩ := (husers result hmem).2 voter hvoter
        exact parseChat_user (h.voters result hmem _ hvoter)
      obtain ⟨voters, hvoters⟩ := Except.exists_mapM_eq_ok.mpr heach
      exact ⟨some voters, Except.map_eq_ok.mpr ⟨voters, hvoters, rfl⟩⟩

/-- A user that is found is known by what is found. -/
theorem user_of_entry {userId userId' : ℕ+}
    (h : voterEntry users (.user userId) = voterEntry users (.user userId'))
    (hentry : entry users chats (.user userId) ≠ none) : userId = userId' := by
  rw [← voterEntry_user hentry] at hentry
  obtain ⟨raw, hraw⟩ := Option.ne_none_iff_exists'.mp hentry
  obtain ⟨user, huser, rfl⟩ := Option.map_eq_some_iff.mp hraw
  obtain ⟨user', huser', heq⟩ := Option.map_eq_some_iff.mp (h.symm.trans hraw)
  obtain rfl : user' = user := Sum.inl.inj heq
  exact (key_of_latest huser).symm.trans (key_of_latest huser')

/-- Users that are found are known by what is found. -/
theorem voters_eq {voters voters' : List Peer}
    (hvoters : ∀ voter ∈ voters, (∃ userId, voter = .user userId) ∧ entry users chats voter ≠ none)
    (hvoters' : ∀ voter ∈ voters', (∃ userId, voter = .user userId) ∧
      entry users chats voter ≠ none)
    (h : voters.map (voterEntry users) = voters'.map (entry users chats)) : voters = voters' := by
  induction voters generalizing voters' with
  | nil =>
    cases voters' with
    | nil => rfl
    | cons _ _ => cases h
  | cons voter voters ih =>
    cases voters' with
    | nil => cases h
    | cons voter' voters' =>
      obtain ⟨hhead, htail⟩ := List.cons_eq_cons.mp h
      obtain ⟨⟨userId, rfl⟩, hentry⟩ := hvoters voter List.mem_cons_self
      obtain ⟨⟨userId', rfl⟩, hentry'⟩ := hvoters' voter' List.mem_cons_self
      rw [← voterEntry_user hentry'] at hhead
      rw [user_of_entry hhead hentry, ih (fun v hv => hvoters v (List.mem_cons_of_mem _ hv))
        (fun v hv => hvoters' v (List.mem_cons_of_mem _ hv)) htail]

/-- The result in the place of an answer says what the one that names it says. -/
structure Agrees (results : List RawPollAnswerVoters) (users : List RawUser) (chats : List RawChat)
    (answer : RawPollAnswer τ × ℕ) : Prop where
  voterCount : results[answer.2]?.elim (some 0) RawPollAnswerVoters.voters =
    (named results answer.1).elim (some 0) RawPollAnswerVoters.voters
  recentVoters : (results[answer.2]?.elim [] RawPollAnswerVoters.recentVoters).map
    (voterEntry users) =
    ((named results answer.1).elim [] RawPollAnswerVoters.recentVoters).map (entry users chats)
  chosen : results[answer.2]?.any RawPollAnswerVoters.chosen =
    (named results answer.1).any RawPollAnswerVoters.chosen
  correct : results[answer.2]?.any RawPollAnswerVoters.correct =
    (named results answer.1).any RawPollAnswerVoters.correct

theorem optionFollows_iff {answer : RawPollAnswer τ × ℕ}
    {p : ℕ × Option RawPollAnswerVoters × PollOption γ}
    (h : Parsed users results answer p) : OptionFollows results users chats answer.1 p.2.2 ↔
      results[answer.2]?.elim (some 0) RawPollAnswerVoters.voters =
          (named results answer.1).elim (some 0) RawPollAnswerVoters.voters ∧
        (results[answer.2]?.elim [] RawPollAnswerVoters.recentVoters).map (voterEntry users) =
          ((named results answer.1).elim [] RawPollAnswerVoters.recentVoters).map
            (entry users chats) := by
  rw [← h.voterCount, ← h.recentVoters]
  exact ⟨fun hf => ⟨hf.voterCount, hf.recentVoters⟩, fun hf => ⟨hf.1, hf.2⟩⟩

variable (chats) in
theorem forall₂_optionFollows_iff {l : List (RawPollAnswer τ × ℕ)}
    {parsed : List (ℕ × Option RawPollAnswerVoters × PollOption γ)}
    (h : List.Forall₂ (Parsed users results) l parsed) :
    List.Forall₂ (OptionFollows results users chats) (l.map Prod.fst) (parsed.map fun p => p.2.2) ↔
      ∀ answer ∈ l, results[answer.2]?.elim (some 0) RawPollAnswerVoters.voters =
          (named results answer.1).elim (some 0) RawPollAnswerVoters.voters ∧
        (results[answer.2]?.elim [] RawPollAnswerVoters.recentVoters).map (voterEntry users) =
          ((named results answer.1).elim [] RawPollAnswerVoters.recentVoters).map
            (entry users chats) := by
  induction h with
  | nil => exact iff_of_true .nil fun a ha => absurd ha List.not_mem_nil
  | cons hp _ ih => rw [List.map_cons, List.map_cons, List.forall₂_cons, List.forall_mem_cons, ih,
      optionFollows_iff hp]

theorem marked_eq_iff (mark : RawPollAnswerVoters → Bool)
    {parsed : List (ℕ × Option RawPollAnswerVoters × PollOption γ)}
    (h : List.Forall₂ (Parsed users results) answers.zipIdx parsed) :
    (orNone (marked mark parsed)).getD [] = markedAnswers mark answers results ↔
      ∀ answer ∈ answers.zipIdx, results[answer.2]?.any mark =
        (named results answer.1).any mark := by
  rw [getD_orNone, marked_eq h]
  exact filter_zipIdx_eq_iff

theorem bytes_of_parsed {l : List (RawPollAnswer τ × ℕ)}
    {parsed : List (ℕ × Option RawPollAnswerVoters × PollOption γ)}
    (h : List.Forall₂ (Parsed users results) l parsed) :
    List.Forall₂ (fun answer option => option.persistentId.toByteArray =
      RawPollAnswer.option answer)
      (l.map Prod.fst) (parsed.map fun p => p.2.2) := by
  induction h with
  | nil => exact .nil
  | cons hp _ ih => exact .cons hp.option ih

/-- A poll that is parsed follows its results when each answer agrees with the one in its place. -/
theorem follows_iff_agrees {poll : Poll γ}
    {parsed : List (ℕ × Option RawPollAnswerVoters × PollOption γ)}
    (h : List.Forall₂ (Parsed users results) answers.zipIdx parsed)
    (hoptions : poll.options = parsed.map fun p => p.2.2)
    (hchosen : poll.chosenOptionIds = orNone (marked RawPollAnswerVoters.chosen parsed))
    (hcorrect : poll.correctOptionIds = orNone (marked RawPollAnswerVoters.correct parsed)) :
    Follows answers results users chats poll ↔
      ∀ answer ∈ answers.zipIdx, Agrees results users chats answer := by
  have hall := forall₂_optionFollows_iff chats h
  rw [List.zipIdx_map_fst, ← hoptions] at hall
  have hchosen' := hchosen ▸ marked_eq_iff RawPollAnswerVoters.chosen h
  have hcorrect' := hcorrect ▸ marked_eq_iff RawPollAnswerVoters.correct h
  constructor
  · intro hf answer hanswer
    obtain ⟨hcount, hvoters⟩ := hall.mp hf.options answer hanswer
    exact ⟨hcount, hvoters, hchosen'.mp hf.chosen answer hanswer, hcorrect'.mp hf.correct answer
      hanswer⟩
  · intro hagree
    refine ⟨hall.mpr fun a ha => ⟨(hagree a ha).voterCount, (hagree a ha).recentVoters⟩,
      hchosen'.mpr fun a ha => (hagree a ha).chosen, hcorrect'.mpr fun a ha =>
        (hagree a ha).correct, votePoll_eq ?_⟩
    exact hoptions ▸ List.zipIdx_map_fst 0 answers ▸ bytes_of_parsed h

/-- Answers agree in their places when the results are in the order of the answers, and users
voted. -/
theorem agrees_iff (h : WellFormed answers results users chats)
    (hlength : results = [] ∨ results.length = answers.length) :
    (∀ answer ∈ answers.zipIdx, Agrees results users chats answer) ↔
      (∀ result ∈ results, ∀ voter ∈ result.recentVoters, ∃ userId, voter = .user userId) ∧
        ∀ (i : ℕ) (answer : RawPollAnswer τ) (result : RawPollAnswerVoters), answers[i]? =
          some answer →
          results[i]? = some result → { result with option := answer.option } ∈ results := by
  constructor
  · intro hagree
    have husers : ∀ result ∈ results, ∀ voter ∈ result.recentVoters, ∃ userId, voter =
        .user userId := by
      intro result hresult voter hvoter
      obtain ⟨answer, hanswer, hoption⟩ := h.names result hresult
      obtain ⟨i, hi⟩ := List.mem_iff_getElem?.mp hanswer
      have hvoters := (hagree (answer, i) (List.mem_zipIdx_iff_getElem?.mpr hi)).recentVoters
      rw [named_eq_some h hresult hoption.symm] at hvoters
      have hmem : entry users chats voter ∈ result.recentVoters.map (entry users chats) :=
        List.mem_map_of_mem hvoter
      rw [Option.elim_some] at hvoters
      rw [← hvoters] at hmem
      obtain ⟨voter', -, heq⟩ := List.mem_map.mp hmem
      exact isUser_of_entry_eq heq (h.voters result hresult voter hvoter)
    refine ⟨husers, fun i answer result hanswer hresult => ?_⟩
    have hlength : results.length = answers.length :=
      hlength.resolve_left (List.ne_nil_of_mem (List.mem_of_getElem? hresult))
    obtain ⟨other, hother⟩ := exists_named h hlength (List.mem_of_getElem? hanswer)
    obtain ⟨hmem, hoption⟩ := mem_of_named hother
    have hat := hagree (answer, i) (List.mem_zipIdx_iff_getElem?.mpr hanswer)
    have hcount := hat.voterCount
    have hvoters := hat.recentVoters
    have hchosen := hat.chosen
    have hcorrect := hat.correct
    simp only [hother, hresult, Option.elim_some, Option.any_some]
      at hcount hvoters hchosen hcorrect
    have hgood : ∀ r ∈ results, ∀ voter ∈ r.recentVoters, (∃ userId, voter = .user userId) ∧
        entry users chats voter ≠ none :=
      fun r hr voter hvoter => ⟨husers r hr voter hvoter, h.voters r hr voter hvoter⟩
    have hrecent := voters_eq (hgood result (List.mem_of_getElem? hresult))
      (hgood other hmem) hvoters
    have heq : { result with option := answer.option } = other := by
      cases result
      cases other
      simp_all
    exact heq ▸ hmem
  · rintro ⟨husers, hagree⟩ ⟨answer, i⟩ hanswer
    have hi := List.mem_zipIdx_iff_getElem?.mp hanswer
    cases hresult : results[i]? with
    | none =>
      -- no result in this place means none at all
      have hnil : results = [] := hlength.resolve_right fun heq => by
        have := (List.getElem?_eq_some_iff.mp hi).1
        have := List.getElem?_eq_none_iff.mp hresult
        omega
      subst hnil
      exact ⟨rfl, rfl, rfl, rfl⟩
    | some result =>
      have hnamed := named_eq_some h (hagree i answer result hi hresult) rfl
      refine ⟨?_, ?_, ?_, ?_⟩ <;> simp only [hnamed, hresult, Option.elim_some, Option.any_some]
      refine List.map_congr_left fun voter hvoter => ?_
      have hmem := List.mem_of_getElem? hresult
      obtain ⟨userId, rfl⟩ := husers result hmem voter hvoter
      exact voterEntry_user (h.voters result hmem _ hvoter)

/-! ### The whole poll -/

variable {poll : RawPoll τ} {pollResults : RawPollResults}

theorem parse_eq_ok {p : Poll γ} : parse parseContent poll pollResults users chats = .ok p ↔
    ∃ voters counts parsed content, (List.range poll.answers.length).mapM
      (votersAt pollResults.results) = .ok voters ∧
      voters.mapM asNumber = .ok counts ∧
      poll.answers.zipIdx.mapM (parseAnswer parseContent users chats pollResults.results
        (getVotePercentage counts (pollResults.totalVoters.getD 0))) = .ok parsed ∧
      parseContent poll.content users chats = .ok content ∧
      p = { id := poll.id, content, options := parsed.map fun p =>
        p.2.2, totalVoterCount := pollResults.totalVoters
            chosenOptionIds := orNone (marked RawPollAnswerVoters.chosen parsed)
            correctOptionIds := orNone (marked RawPollAnswerVoters.correct parsed) } := by
  constructor
  · intro h
    obtain ⟨voters, hvoters, h⟩ := Except.bind_eq_ok.mp h
    obtain ⟨counts, hcounts, h⟩ := Except.bind_eq_ok.mp h
    obtain ⟨parsed, hparsed, h⟩ := Except.bind_eq_ok.mp h
    obtain ⟨content, hcontent, h⟩ := Except.bind_eq_ok.mp h
    cases h
    exact ⟨voters, counts, parsed, content, hvoters, hcounts, hparsed, hcontent, rfl⟩
  · rintro ⟨voters, counts, parsed, content, hvoters, hcounts, hparsed, hcontent, rfl⟩
    simp only [parse, hvoters, hcounts, hparsed, hcontent, Except.bind_ok]
    rfl

theorem forall₂_parsed {percentages : List ℤ}
    {parsed : List (ℕ × Option RawPollAnswerVoters × PollOption γ)}
    (h : answers.zipIdx.mapM (parseAnswer parseContent users chats results percentages) =
      .ok parsed) :
    List.Forall₂ (Parsed users results) answers.zipIdx parsed :=
  (Except.mapM_eq_ok.mp h).imp fun _ _ => parsed_of_parseAnswer

/-- Where the counts are there, a result stands in the place of each answer, or none in any. -/
theorem length_of_places (h : WellFormed answers results users chats)
    (hplaces : results = [] ∨ ∀ i < answers.length, ∃ result, results[i]? = some result ∧
      result.voters ≠ none) :
    (results = [] ∨ results.length = answers.length) ∧ ∀ result ∈ results,
      result.voters ≠ none := by
  rcases hplaces with rfl | hplaces
  · exact ⟨.inl rfl, fun result hresult => absurd hresult List.not_mem_nil⟩
  · have hle := length_results_le h
    have hge : answers.length ≤ results.length := by
      by_contra hlt
      obtain ⟨result, hresult, -⟩ := hplaces results.length (by omega)
      exact absurd (List.getElem?_eq_some_iff.mp hresult).1 (lt_irrefl _)
    refine ⟨.inr (le_antisymm hle hge), fun result hresult => ?_⟩
    obtain ⟨i, hi⟩ := List.mem_iff_getElem?.mp hresult
    obtain ⟨result', hresult', hsome⟩ := hplaces i (by
      have := (List.getElem?_eq_some_iff.mp hi).1
      omega)
    exact Option.some.inj (hi.symm.trans hresult') ▸ hsome

/-- **The results follow their options exactly when the lists may be taken side by side.** -/
theorem follows_iff (h : WellFormed poll.answers pollResults.results users chats) :
    (∃ p, parse parseContent poll pollResults users chats = .ok p ∧
        Follows poll.answers pollResults.results users chats p) ↔
      InStep parseContent poll pollResults.results users chats := by
  constructor
  -- what was parsed agrees with the results, place by place
  · rintro ⟨p, hp, hfollows⟩
    obtain ⟨voters, counts, parsed, content, hvoters, hcounts, hparsed, hcontent, rfl⟩ :=
      parse_eq_ok.mp hp
    obtain ⟨hlength, hsome⟩ :=
      length_of_places h (exists_counts_iff.mp ⟨voters, counts, hvoters, hcounts⟩)
    have hagree := (follows_iff_agrees (forall₂_parsed hparsed) rfl rfl rfl).mp hfollows
    obtain ⟨husers, hplaces⟩ := (agrees_iff h hlength).mp hagree
    refine ⟨⟨content, hcontent⟩, fun answer hanswer => ?_, hlength,
      fun result hresult => ⟨hsome result hresult, husers result hresult⟩, hplaces⟩
    obtain ⟨i, hi⟩ := List.mem_iff_getElem?.mp hanswer
    have hlt := (List.getElem?_eq_some_iff.mp hi).1
    have hmem : (answer, i) ∈ poll.answers.zipIdx := List.mem_zipIdx_iff_getElem?.mpr hi
    obtain ⟨q, -, hq⟩ := Except.exists_mem_of_mapM hparsed hmem
    obtain ⟨-, hvalid, hcontent, -, hadder⟩ := (exists_parseAnswer_iff
      (by rwa [length_getVotePercentage, length_of_counts hvoters hcounts])).mp ⟨q, hq⟩
    exact ⟨hcontent, hadder, hvalid⟩
  -- every answer has a result in its place, so all of them can be parsed
  · rintro ⟨⟨content, hcontent⟩, hanswers, hlength, hresults, hplaces⟩
    obtain ⟨voters, counts, hvoters, hcounts⟩ :=
        exists_counts_iff.mpr (hlength.imp_right fun heq i hi =>
      ⟨_, List.getElem?_eq_getElem (heq ▸ hi), (hresults _ (List.getElem_mem (heq ▸ hi))).1⟩)
    have hparsed : ∃ parsed,
      poll.answers.zipIdx.mapM (parseAnswer parseContent users chats pollResults.results
        (getVotePercentage counts (pollResults.totalVoters.getD 0))) = .ok parsed := by
      refine Except.exists_mapM_eq_ok.mpr fun ⟨answer, i⟩ hanswer => ?_
      have hi := List.mem_zipIdx_iff_getElem?.mp hanswer
      have hlt := (List.getElem?_eq_some_iff.mp hi).1
      obtain ⟨hcontent, hadder, hvalid⟩ := hanswers answer (List.mem_of_getElem? hi)
      refine (exists_parseAnswer_iff
        (by rwa [length_getVotePercentage, length_of_counts hvoters hcounts])).mpr
        ⟨hlength.imp_right fun heq => by omega, hvalid, hcontent, ?_, hadder⟩
      exact exists_parseVoters h hresults
    obtain ⟨parsed, hparsed⟩ := hparsed
    refine ⟨_, parse_eq_ok.mpr ⟨voters, counts, parsed, content, hvoters, hcounts, hparsed,
      hcontent, rfl⟩, ?_⟩
    exact (follows_iff_agrees (forall₂_parsed hparsed) rfl rfl rfl).mpr
      ((agrees_iff h hlength).mpr ⟨fun result hresult => (hresults result hresult).2, hplaces⟩)

/-- A question with two answers, whose options are the bytes `0` and `1`. -/
def question : RawPoll Unit :=
  { id := 1, content := (),
    answers := [{ option := ⟨#[0x30]⟩, content := () }, { option := ⟨#[0x31]⟩, content := () }] }

/-- Only the second answer has a result. -/
def secondOnly : RawPollResults :=
  { results := [{ option := ⟨#[0x31]⟩, voters := some 3, recentVoters := [.user 7] }],
    totalVoters := some 3 }

def voters : List RawUser := [.user 7 false none none none []]

theorem wellFormed_secondOnly : WellFormed question.answers secondOnly.results voters [] where
  answers_nodup := by decide
  results_nodup := by decide
  names := by decide
  voters := by decide

/-- Of the two answers, the second alone has a result. -/
theorem follows_iff_secondOnly : WellFormed question.answers secondOnly.results voters [] ∧
    ((∃ p, parse (fun _ _ _ => .ok ()) question secondOnly voters [] = .ok p ∧
        Follows question.answers secondOnly.results voters [] p) ↔
      InStep (fun _ _ _ => .ok ()) question secondOnly.results voters []) :=
  ⟨wellFormed_secondOnly, follows_iff wellFormed_secondOnly⟩

/-- **An answer without a result** lets the parser look past the end of the results. -/
theorem not_follows_of_secondOnly :
    parse (fun _ _ _ => .ok ()) question secondOnly voters [] = .error indexError ∧
    ¬ ∀ (poll : RawPoll Unit) (pollResults : RawPollResults) (users : List RawUser)
      (chats : List RawChat),
      WellFormed poll.answers pollResults.results users chats →
      ∃ p, parse (fun _ _ _ => .ok ()) poll pollResults users chats = .ok p ∧
        Follows poll.answers pollResults.results users chats p := by
  have hraises : parse (fun _ _ _ => .ok ()) question secondOnly voters [] = .error indexError :=
    rfl
  refine ⟨hraises, fun h => ?_⟩
  obtain ⟨p, hp, -⟩ := h question secondOnly voters [] wellFormed_secondOnly
  rw [hraises] at hp
  cases hp

end Poll

end Pyrogram.Types
