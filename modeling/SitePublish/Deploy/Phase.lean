/-!
# Deployment phases

A deployment generates, filters, commits and publishes, and then has succeeded; a dry run has
succeeded after filtering. Every phase on the way may fail instead.
-/

set_option autoImplicit false

namespace SitePublish

inductive Phase where
  | generating
  | filtering
  | committing
  | publishing
  | succeeded
  | failed
deriving DecidableEq

namespace Phase

def all : List Phase := [.generating, .filtering, .committing, .publishing, .succeeded, .failed]

def name : Phase → String
  | .generating => "GENERATING"
  | .filtering => "FILTERING"
  | .committing => "COMMITTING"
  | .publishing => "PUBLISHING"
  | .succeeded => "SUCCEEDED"
  | .failed => "FAILED"

def ofName? (s : String) : Option Phase := all.find? fun p => p.name = s

def isTerminal (p : Phase) : Bool := p = .succeeded || p = .failed

def canAdvanceTo : Phase → Phase → Bool
  | .succeeded, _ | .failed, _ => false
  | _, .failed => true
  | .generating, .filtering | .filtering, .committing | .filtering, .succeeded
  | .committing, .publishing | .publishing, .succeeded => true
  | _, _ => false

end Phase

end SitePublish
