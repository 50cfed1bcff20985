import Us.Go
import Us.Store.Records
import Us.Store.Ephemeral
import Us.Store.Refs
import Us.Store.Encoding
import Us.Store.Bolt
import Us.Store.Atomic
import Us.Store.Refine
import Us.Proto.SectorBuffer
import Us.Proto.Downloader
import Us.Proto.Session
import Us.Proto.Revisions
import Us.Proto.Buffer
import Us.Wallet.Address
import Us.Wallet.Limbo
import Us.Wallet.Codec
