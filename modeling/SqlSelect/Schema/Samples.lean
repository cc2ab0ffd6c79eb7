import SqlSelect.Schema.Declaration

/-!
# Sample Declarations

The tables of a small publishing site, a table with a column of every kind, and a table without
columns.

## Main definitions

- `Samples.user`, `Samples.avatar`, `Samples.post` — the publishing site
- `Samples.kinds` — every kind of column, with defaults and comments
- `Samples.nothing` — no columns
- `Samples.all` — all of them
-/

namespace SqlSelect.Samples

/-- A registered user. -/
def user : Declaration where
  ident := "User"
  fields := [
    ("id", []),
    ("first_name", [.named "firstName"]),
    ("nickname", [.nullable])]

/-- A picture of a user. -/
def avatar : Declaration where
  ident := "Avatar"
  fields := [
    ("url", []),
    ("user_id", [.named "userId"])]

/-- An article, with a revision number that stays inside its table. -/
def post : Declaration where
  ident := "Post"
  fields := [
    ("id", []),
    ("author_id", [.named "authorId"]),
    ("title", []),
    ("_revision", [])]

/-- One column of each kind. -/
def kinds : Declaration where
  ident := "Kinds"
  fields := [
    ("flag", [.default (.boolean true), .comment "a flag"]),
    ("small", [.default (.smallint (-7)), .nullable]),
    ("medium", [.named "mid", .generator [.integer 42]]),
    ("big", [.default (.bigint Int64.minValue)]),
    ("real", [.default (.real ⟨BitVec.ofNat _ 0x3dcccccd⟩)]),
    ("double", [.named "dbl", .default (.double ⟨BitVec.ofNat _ 0x7ff0000000000000⟩)]),
    ("text", [.default (.text "it's"), .comment ""]),
    ("blob", [.default (.bytes [0x00, 0xff])])]

/-- A table without columns. -/
def nothing : Declaration where
  ident := "Nothing"
  fields := []

def all : List Declaration := [user, avatar, post, kinds, nothing]

def find? (ident : String) : Option Declaration := all.find? (·.ident == ident)

end SqlSelect.Samples
