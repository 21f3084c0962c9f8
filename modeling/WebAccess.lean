import WebAccess.Scan.Folders
import WebAccess.Scan.Watch
import WebAccess.Scan.Streams
import WebAccess.Scan.Joining
import WebAccess.Serve.AddressBudget
import WebAccess.Serve.LocalBudget
import WebAccess.Saml.SingleUse
import WebAccess.Serve.RoundTrip
import WebAccess.Scan.Contention
import WebAccess.Scan.Limit
import WebAccess.Scan.Cleared
import WebAccess.Serve.Rebinding
import WebAccess.Serve.Accounts
import WebAccess.Scan.Compression
import WebAccess.Serve.Backups
import WebAccess.Serve.Lookup
import WebAccess.Serve.ServerImport
import WebAccess.Serve.Listing
import WebAccess.Saml.Assertion
import WebAccess.Serve.Health
import WebAccess.Serve.Notices
import WebAccess.Serve.Retention
import WebAccess.Serve.Secrets
import WebAccess.Serve.Authority
