import SpannerEtcd.Server.Auth

/-!
# The configured users

The users are configured in one string, `user1:pass1,user2:pass2`.  Entries
that cannot be read are left out, and authentication is enabled if any are
left.
-/

namespace SpannerEtcd

/-! ## Strings -/

/-- The UTF-8 encodings of the characters that `unicode.IsSpace` accepts. -/
def spaces : List Bytes :=
  [[9], [10], [11], [12], [13], [32], [0xC2, 0x85], [0xC2, 0xA0], [0xE1, 0x9A, 0x80],
    [0xE2, 0x80, 0x80], [0xE2, 0x80, 0x81], [0xE2, 0x80, 0x82], [0xE2, 0x80, 0x83],
    [0xE2, 0x80, 0x84], [0xE2, 0x80, 0x85], [0xE2, 0x80, 0x86], [0xE2, 0x80, 0x87],
    [0xE2, 0x80, 0x88], [0xE2, 0x80, 0x89], [0xE2, 0x80, 0x8A], [0xE2, 0x80, 0xA8],
    [0xE2, 0x80, 0xA9], [0xE2, 0x80, 0xAF], [0xE2, 0x81, 0x9F], [0xE3, 0x80, 0x80]]

/-- Remove words of `blanks` from the front, at most `fuel` of them. -/
def trimLeft (blanks : List Bytes) : Nat → Bytes → Bytes
  | 0, s => s
  | fuel + 1, s =>
      match blanks.find? fun blank => blank.isPrefixOf s with
      | none => s
      | some blank => trimLeft blanks fuel (s.drop blank.length)

def trimRight (blanks : List Bytes) (s : Bytes) : Bytes :=
  (trimLeft (blanks.map List.reverse) s.length s.reverse).reverse

/-- `strings.TrimSpace`. -/
def trimSpace (s : Bytes) : Bytes :=
  trimRight spaces (trimLeft spaces s.length s)

def comma : Byte := 44

def colon : Byte := 58

/-- `strings.SplitN(s, ":", 2)`. -/
def splitColon (s : Bytes) : List Bytes :=
  match s.span fun byte => decide (byte ≠ colon) with
  | (_, []) => [s]
  | (name, _ :: rest) => [name, rest]

/-! ## The parser -/

/-- `users[name] = password`. -/
def setUser (users : List (Bytes × Bytes)) (name password : Bytes) : List (Bytes × Bytes) :=
  (name, password) :: users.filter fun user => decide (user.1 ≠ name)

def addPair (users : List (Bytes × Bytes)) (pair : Bytes) : List (Bytes × Bytes) :=
  match splitColon (trimSpace pair) with
  | [name, password] => if name ≠ [] then setUser users name password else users
  | _ => users

def parseUsers (s : Bytes) : List (Bytes × Bytes) :=
  if s = [] then [] else (s.splitOn comma).foldl addPair []

/-- The settings of a server that its credentials come from. -/
structure ServerConfig where
  authUsers : Bytes
  authTokenTTL : Int
  tlsCert : Bytes
  tlsKey : Bytes
  tlsCAFile : Bytes

/-- `New`, up to the registration of the services. -/
def newServer (cfg : ServerConfig) (buildServerCreds : Bytes → Bytes → Bytes → Except String Unit) :
    Except String AuthServer :=
  let auth := newAuthServer (parseUsers cfg.authUsers) cfg.authTokenTTL
  if cfg.tlsCert ≠ [] ∧ cfg.tlsKey ≠ [] then
    match buildServerCreds cfg.tlsCert cfg.tlsKey cfg.tlsCAFile with
    | .error err => .error ("load TLS creds: " ++ err)
    | .ok _ => .ok auth
  else .ok auth

/-! ## What is split and trimmed -/

theorem splitColon_eq_pair_iff {s name password : Bytes} :
    splitColon s = [name, password] ↔ colon ∉ name ∧ s = name ++ colon :: password := by
  unfold splitColon
  rw [List.span_eq_takeWhile_dropWhile]
  constructor
  · intro found
    have whole := List.takeWhile_append_dropWhile (p := fun byte => decide (byte ≠ colon)) (l := s)
    have stops := List.head?_dropWhile_not (fun byte => decide (byte ≠ colon)) s
    have front : colon ∉ s.takeWhile fun byte => decide (byte ≠ colon) := fun inFront => by
      simpa using List.mem_takeWhile_imp inFront
    generalize s.takeWhile (fun byte => decide (byte ≠ colon)) = before at found whole front
    generalize s.dropWhile (fun byte => decide (byte ≠ colon)) = rest at found whole stops
    cases rest with
    | nil => cases found
    | cons first rest =>
        obtain ⟨rfl, rfl⟩ : before = name ∧ rest = password := by simpa using found
        obtain rfl : first = colon := by simpa using stops
        exact ⟨front, whole.symm⟩
  · intro both
    obtain ⟨outside, rfl⟩ := both
    have before : ∀ byte ∈ name, decide (byte ≠ colon) = true := by
      intro byte membership
      rw [decide_eq_true_eq]
      exact fun same => outside (same ▸ membership)
    rw [List.takeWhile_append_of_pos before, List.dropWhile_append_of_pos before]
    simp

/-- A word that ends before the separator cannot reach into what follows it. -/
theorem isPrefix_of_append_cons {word front back : Bytes} {separator : Byte}
    (outside : separator ∉ word) (begins : word <+: front ++ separator :: back) :
    word <+: front := by
  have whole : front ++ [separator] <+: front ++ separator :: back := ⟨back, by simp⟩
  rcases List.prefix_or_prefix_of_prefix begins whole with inFront | covers
  · rcases List.prefix_concat_iff.mp inFront with rfl | shorter
    · exact absurd (List.mem_append_right _ (List.mem_singleton_self _)) outside
    · exact shorter
  · exact absurd (covers.subset (List.mem_append_right _ (List.mem_singleton_self _))) outside

theorem trimLeft_eq_self {blanks : List Bytes} {s : Bytes}
    (none : ∀ blank ∈ blanks, ¬blank <+: s) (fuel : Nat) : trimLeft blanks fuel s = s := by
  cases fuel with
  | zero => rfl
  | succ fuel =>
      have notFound : blanks.find? (fun blank => blank.isPrefixOf s) = Option.none := by
        rw [List.find?_eq_none]
        intro blank membership begins
        apply none blank membership
        exact List.isPrefixOf_iff_prefix.mp begins
      simp only [trimLeft, notFound]

theorem trimRight_eq_self {blanks : List Bytes} {s : Bytes}
    (none : ∀ blank ∈ blanks, ¬blank <:+ s) : trimRight blanks s = s := by
  rw [trimRight, trimLeft_eq_self, List.reverse_reverse]
  intro blank membership begins
  obtain ⟨word, inBlanks, rfl⟩ := List.mem_map.mp membership
  exact none word inBlanks (List.reverse_prefix.mp begins)

/-- A name that the format can carry. -/
structure ValidName (name : Bytes) : Prop where
  nonempty : name ≠ []
  noColon : colon ∉ name
  noComma : comma ∉ name
  noLeadingBlank : ∀ space ∈ spaces, ¬space <+: name

structure ValidPassword (password : Bytes) : Prop where
  noComma : comma ∉ password
  noTrailingBlank : ∀ space ∈ spaces, ¬space <:+ password

def userPair (user : Bytes × Bytes) : Bytes := user.1 ++ colon :: user.2

theorem colon_not_mem_spaces : ∀ space ∈ spaces, colon ∉ space := by decide

theorem trimSpace_userPair {name password : Bytes} (validName : ValidName name)
    (validPassword : ValidPassword password) :
    trimSpace (userPair (name, password)) = userPair (name, password) := by
  have front : ∀ space ∈ spaces, ¬space <+: userPair (name, password) := by
    intro space membership begins
    exact validName.noLeadingBlank space membership
      (isPrefix_of_append_cons (colon_not_mem_spaces space membership) begins)
  have back : ∀ space ∈ spaces, ¬space <:+ userPair (name, password) := by
    intro space membership ends
    have reversed : space.reverse <+: password.reverse ++ colon :: name.reverse := by
      simpa [userPair] using List.reverse_prefix.mpr ends
    have outside : colon ∉ space.reverse := by
      simpa using colon_not_mem_spaces space membership
    exact validPassword.noTrailingBlank space membership
      (List.reverse_prefix.mp (isPrefix_of_append_cons outside reversed))
  rw [trimSpace, trimLeft_eq_self front, trimRight_eq_self back]

/-! ## What is parsed -/

/-- An entry that names a user. -/
def NamesUser (pair : Bytes) : Prop :=
  ∃ name password, name ≠ [] ∧ colon ∉ name ∧ trimSpace pair = name ++ colon :: password

theorem addPair_of_namesUser {pair name password : Bytes} (nonempty : name ≠ [])
    (outside : colon ∉ name) (split : trimSpace pair = name ++ colon :: password)
    (users : List (Bytes × Bytes)) : addPair users pair = setUser users name password := by
  simp only [addPair, splitColon_eq_pair_iff.mpr ⟨outside, split⟩]
  exact if_pos nonempty

theorem addPair_of_not_namesUser {pair : Bytes} (unnamed : ¬NamesUser pair)
    (users : List (Bytes × Bytes)) : addPair users pair = users := by
  unfold addPair
  split
  next name password found =>
    obtain ⟨outside, split⟩ := splitColon_eq_pair_iff.mp found
    apply if_neg
    exact fun nonempty => unnamed ⟨name, password, nonempty, outside, split⟩
  next => rfl

theorem foldl_addPair_eq_nil_iff (pairs : List Bytes) (users : List (Bytes × Bytes)) :
    pairs.foldl addPair users = [] ↔ users = [] ∧ ∀ pair ∈ pairs, ¬NamesUser pair := by
  induction pairs generalizing users with
  | nil => simp
  | cons pair rest inductionHypothesis =>
      rw [List.foldl_cons, inductionHypothesis, List.forall_mem_cons]
      by_cases named : NamesUser pair
      · obtain ⟨name, password, nonempty, outside, split⟩ := id named
        rw [addPair_of_namesUser nonempty outside split]
        simp [setUser, named]
      · rw [addPair_of_not_namesUser named]
        simp [named]

/-- Some entry of the string names a user. -/
def HasUser (s : Bytes) : Prop := ∃ pair ∈ s.splitOn comma, NamesUser pair

theorem newAuthServer_enabled_iff {s : Bytes} (nonempty : s ≠ []) (ttl : Int) :
    (newAuthServer (parseUsers s) ttl).enabled = true ↔ HasUser s := by
  have none := foldl_addPair_eq_nil_iff (s.splitOn comma) []
  simp only [newAuthServer, parseUsers, if_neg nonempty, Bool.not_eq_true',
    List.isEmpty_eq_false_iff, ne_eq, none, HasUser]
  simp

theorem lookup_filter_ne {name other : Bytes} (differs : other ≠ name)
    (users : List (Bytes × Bytes)) :
    (users.filter fun user => decide (user.1 ≠ name)).lookup other = users.lookup other := by
  induction users with
  | nil => rfl
  | cons user rest inductionHypothesis =>
      obtain ⟨key, password⟩ := user
      by_cases replaced : key = name
      · have miss : (other == key) = false := beq_false_of_ne (replaced ▸ differs)
        rw [List.filter_cons_of_neg (by simpa using replaced), inductionHypothesis,
          List.lookup_cons, miss]
      · rw [List.filter_cons_of_pos (by simpa using replaced), List.lookup_cons, List.lookup_cons,
          inductionHypothesis]

theorem lookup_setUser (users : List (Bytes × Bytes)) (name password other : Bytes) :
    (setUser users name password).lookup other =
      if other = name then some password else users.lookup other := by
  by_cases same : other = name
  · simp [setUser, same]
  · rw [setUser, List.lookup_cons, beq_false_of_ne same, if_neg same]
    exact lookup_filter_ne same users

/-- Every user that the format can carry. -/
def ValidUsers (users : List (Bytes × Bytes)) : Prop :=
  ∀ user ∈ users, ValidName user.1 ∧ ValidPassword user.2

def joinUsers (users : List (Bytes × Bytes)) : Bytes :=
  [comma].intercalate (users.map userPair)

theorem addPair_userPair {user : Bytes × Bytes} (validName : ValidName user.1)
    (validPassword : ValidPassword user.2) (users : List (Bytes × Bytes)) :
    addPair users (userPair user) = setUser users user.1 user.2 :=
  addPair_of_namesUser validName.nonempty validName.noColon
    (trimSpace_userPair validName validPassword) users

-- The map holds the entries read so far, the later ones first.
theorem lookup_foldl_addPair {users : List (Bytes × Bytes)} (valid : ValidUsers users)
    (found : List (Bytes × Bytes)) (name : Bytes) :
    ((users.map userPair).foldl addPair found).lookup name =
      (users.reverse.lookup name).or (found.lookup name) := by
  induction users generalizing found with
  | nil => rfl
  | cons user rest inductionHypothesis =>
      obtain ⟨⟨validName, validPassword⟩, validRest⟩ := List.forall_mem_cons.mp valid
      obtain ⟨key, password⟩ := user
      rw [List.map_cons, List.foldl_cons, addPair_userPair validName validPassword,
        inductionHypothesis validRest, lookup_setUser, List.reverse_cons, List.lookup_append,
        Option.or_assoc]
      congr 1
      by_cases same : name = key
      · simp [same]
      · simp [List.lookup_cons, beq_false_of_ne same, same]

theorem comma_not_mem_userPair {user : Bytes × Bytes} (validName : ValidName user.1)
    (validPassword : ValidPassword user.2) : comma ∉ userPair user := by
  have differs : comma ≠ colon := by decide
  simp [userPair, validName.noComma, validPassword.noComma, differs]

theorem splitOn_joinUsers {users : List (Bytes × Bytes)} (valid : ValidUsers users)
    (nonempty : users ≠ []) : (joinUsers users).splitOn comma = users.map userPair := by
  apply List.splitOn_intercalate
  · intro pair membership
    obtain ⟨user, inUsers, rfl⟩ := List.mem_map.mp membership
    exact comma_not_mem_userPair (valid user inUsers).1 (valid user inUsers).2
  · simpa using nonempty

theorem lookup_parseUsers_joinUsers {users : List (Bytes × Bytes)} (valid : ValidUsers users)
    (name : Bytes) : (parseUsers (joinUsers users)).lookup name = users.reverse.lookup name := by
  cases users with
  | nil => rfl
  | cons user rest =>
      have split := splitOn_joinUsers valid (List.cons_ne_nil user rest)
      have written : joinUsers (user :: rest) ≠ [] := by
        intro blank
        simp [blank, userPair] at split
      rw [parseUsers, if_neg written, split, lookup_foldl_addPair valid]
      simp

/-! ## Authentication stays on -/

/-- Reading the certificates was asked for and failed. -/
def CredsFail (cfg : ServerConfig)
    (buildServerCreds : Bytes → Bytes → Bytes → Except String Unit) : Prop :=
  (cfg.tlsCert ≠ [] ∧ cfg.tlsKey ≠ []) ∧
    ∃ err, buildServerCreds cfg.tlsCert cfg.tlsKey cfg.tlsCAFile = .error err

/-- The server refuses to start or asks for credentials. -/
def FailsClosed : Except String AuthServer → Prop
  | .error _ => True
  | .ok auth => auth.enabled = true

theorem failsClosed_newServer_iff (cfg : ServerConfig)
    (buildServerCreds : Bytes → Bytes → Bytes → Except String Unit) :
    FailsClosed (newServer cfg buildServerCreds) ↔
      CredsFail cfg buildServerCreds ∨
        (newAuthServer (parseUsers cfg.authUsers) cfg.authTokenTTL).enabled = true := by
  unfold newServer CredsFail
  split
  next requested =>
    split
    next err failed => simp [FailsClosed, requested, failed]
    next loaded => simp [FailsClosed, loaded]
  next plain => simp [FailsClosed, plain]

/-- A server whose user string names nobody passes every request on. -/
theorem intercept_of_not_hasUser {cfg : ServerConfig} {auth : AuthServer}
    {buildServerCreds : Bytes → Bytes → Bytes → Except String Unit}
    (configured : cfg.authUsers ≠ []) (nobody : ¬HasUser cfg.authUsers)
    (started : newServer cfg buildServerCreds = .ok auth) {Result : Type}
    (ctx : Option Metadata) (now : Int) (fullMethod : Bytes) (handler rejected : Result) :
    auth.intercept ctx now fullMethod handler rejected = handler := by
  have closed := failsClosed_newServer_iff cfg buildServerCreds
  rw [started, newAuthServer_enabled_iff configured, or_iff_left nobody] at closed
  have disabled : auth.enabled = false := by
    rw [Bool.eq_false_iff]
    intro enabled
    obtain ⟨requested, err, failed⟩ := closed.mp enabled
    simp [newServer, requested, failed] at started
  simp [AuthServer.intercept, AuthServer.validate, disabled]

/-- A non-empty user string keeps authentication on exactly if an entry of it
names a user or the server does not start, and users that the format can carry
are read back, the last entry of a name winning. -/
theorem configured_auth_fails_closed_iff (cfg : ServerConfig)
    (buildServerCreds : Bytes → Bytes → Bytes → Except String Unit)
    (configured : cfg.authUsers ≠ []) :
    (FailsClosed (newServer cfg buildServerCreds) ↔
        HasUser cfg.authUsers ∨ CredsFail cfg buildServerCreds) ∧
      ∀ users, ValidUsers users → ∀ name,
        (parseUsers (joinUsers users)).lookup name = users.reverse.lookup name := by
  constructor
  · rw [failsClosed_newServer_iff, newAuthServer_enabled_iff configured, or_comm]
  · intro users valid name
    exact lookup_parseUsers_joinUsers valid name

def rootAndTypo : ServerConfig :=
  { authUsers := ascii "root:secret,admin"
    authTokenTTL := 0, tlsCert := [], tlsKey := [], tlsCAFile := [] }

def rootUser : Bytes × Bytes := (ascii "root", ascii "secret")

theorem rootUser_valid : ValidUsers [rootUser] := by
  intro user membership
  obtain rfl := List.mem_singleton.mp membership
  exact ⟨⟨by decide, by decide, by decide, by decide⟩, by decide, by decide⟩

theorem rootAndTypo_fails_closed :
    FailsClosed (newServer rootAndTypo fun _ _ _ => .ok ()) ∧
      (parseUsers (joinUsers [rootUser])).lookup rootUser.1 = some rootUser.2 := by
  have decided := configured_auth_fails_closed_iff rootAndTypo (fun _ _ _ => .ok ()) (by decide)
  constructor
  · apply decided.1.mpr
    refine .inl ⟨userPair rootUser, by decide, rootUser.1, rootUser.2, by decide, by decide, ?_⟩
    decide
  · exact decided.2 [rootUser] rootUser_valid rootUser.1

/-- The users `admin`, with the colon and the password forgotten, are no users,
and the server runs without authentication. -/
theorem forgotten_password_fails_open :
    ({ rootAndTypo with authUsers := ascii "admin" } : ServerConfig).authUsers ≠ [] ∧
      ¬FailsClosed (newServer { rootAndTypo with authUsers := ascii "admin" }
        fun _ _ _ => .ok ()) := by
  constructor
  · decide
  · intro closed
    cases closed

end SpannerEtcd
